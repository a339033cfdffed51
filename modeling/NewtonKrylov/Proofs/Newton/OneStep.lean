import NewtonKrylov.Proofs.Newton.LinearSolve
import NewtonKrylov.Proofs.Newton.Run

/-!
# Runs of at most one step

Without hooks and without a test of steps nothing but a part of the problem can make a run fail, and
what it comes to can be told in advance. `Quiet.solve_leads` puts such a run together for problems
of which the step from the first state is known: that it is taken, and that no other one follows.
`Quiet.solve_leads_ofSpace` says the same of a residual that is a function of points.
-/

namespace NewtonKrylov

/-- Settings under which nothing happens beside the steps: no hooks, no test of steps, and a
directory for reports that can be used if there is one. -/
structure Settings.Quiet {α : Type} (settings : Settings α) (tolerance : α) (limit : Limit) :
    Prop where
  unhooked : settings.Unhooked
  unset : settings.stepTolerance = none
  maxIterations : settings.maxIterations = .ok limit
  tolerance : settings.tolerance = .ok tolerance
  directory : Solver.Usable settings.newtonDirectory

@[simp] lemma HookAnswer.asksFor_null {r : HookRequest} :
    HookAnswer.asksFor r (.value .null) = false := rfl

namespace Solver

variable {α : Type}

/-! ### What cannot fail -/

section Parts

variable {s : Solver α} {x : Tensor α} {E : Solver α → Prop}

lemma callHook_leads_of_none {point : HookPoint} (none : s.settings.hooks point = none)
    {Q : HookAnswer → Solver α → Prop} (rest : Q (.value .null) s) :
    Leads (callHook point x) s Q E := by
  unfold callHook
  rw [leads_bind, leads_get, none]
  exact rest

lemma evaluate_leads_of_eq_ok {F : NonlinearSystem α} (bound : s.system = some F) {r : Tensor α}
    (value : F.residual x = .ok r) {Q : Tensor α → Solver α → Prop}
    (rest : Q r (s.logged (.evaluated x))) : Leads (evaluate x) s Q E := by
  rw [evaluate, leads_bind]
  refine boundSystem_leads bound ?_
  rw [leads_bind, leads_record, value]
  exact rest

lemma reportNewton_leads [CheckedScalar α] (usable : Usable s.settings.newtonDirectory)
    (step : ℤ) (norm size : α) (x : Tensor α) (heading : Bool) :
    Leads (reportNewton step norm size x heading) s
      (fun _ t => ∃ files, t = { s with files := files }) fun _ => False := by
  unfold reportNewton
  rw [leads_bind, leads_get]
  cases directory : s.settings.newtonDirectory with
  | none => exact ⟨s.files, rfl⟩
  | some d =>
    obtain ⟨path, usable⟩ := usable d directory
    exact .ok_bind usable ⟨_, rfl⟩

end Parts

end Solver

variable {α : Type} [CheckedScalar α]

/-- The iteration at the state to start from. -/
def Iteration.starting (tolerance : α) (y : Tensor α) (norm : α) : Iteration α :=
  { state := y, normPending := !decide (norm ≤ tolerance) }

/-- The iteration after a step to a state with a norm. -/
def Iteration.stepped (it : Iteration α) (tolerance : α) (y : Tensor α) (norm : α) : Iteration α :=
  { it with
    state := y
    iterations := it.iterations + 1
    norms := it.norms ++ [norm]
    normPending := !decide (norm < tolerance) }

/-- The solution in which an iteration ends without hooks. -/
def Iteration.solution (it : Iteration α) (norm : α) (log : List (Event α)) : Solution α :=
  ⟨it.state, it.iterations, norm, it.norms, it.converged, it.reason, .value .null, log⟩

/-- What a run from a vector leaves in the log before its first pass. -/
def startLog {α : Type} (v : Vec α) (y : Tensor α) : List (Event α) :=
  [.guarded (Tensor.ofVec v), .evaluated y, .started y]

namespace Solution

/-- The solution of a run that ends at the state to start from. -/
def atStart (tolerance : α) (v : Vec α) (y : Tensor α) (norm : α) : Solution α :=
  (Iteration.starting tolerance y norm).solution norm (startLog v y)

/-- The solution of a run that ends behind its first step. -/
def afterStep (tolerance : α) (v : Vec α) (y : Tensor α) (norm : α) (out : StepOutcome α)
    (z : Tensor α) : Solution α :=
  ((Iteration.starting tolerance y norm).stepped tolerance z out.norm).solution norm
    (startLog v y ++ [.evaluated y, .attempted y out, .refreshed z])

variable {tolerance norm : α} {v : Vec α} {y z : Tensor α} {out : StepOutcome α}

lemma converged_atStart (small : norm ≤ tolerance) :
    (atStart tolerance v y norm).converged = true ∧
      (atStart tolerance v y norm).reason = .normConverged := by
  simp [atStart, Iteration.solution, Iteration.starting, Iteration.converged, Iteration.reason,
    small]

lemma converged_afterStep (small : out.norm < tolerance) :
    (afterStep tolerance v y norm out z).converged = true ∧
      (afterStep tolerance v y norm out z).reason = .normConverged := by
  simp [afterStep, Iteration.solution, Iteration.starting, Iteration.stepped, Iteration.converged,
    Iteration.reason, small]

lemma attempted_mem_log_afterStep {x : Tensor α} {o : StepOutcome α} :
    .attempted x o ∈ (afterStep tolerance v y norm out z).log ↔ x = y ∧ o = out := by
  simp [afterStep, Iteration.solution, startLog]

lemma attempted_notMem_log_atStart {x : Tensor α} {o : StepOutcome α} :
    .attempted x o ∉ (atStart tolerance v y norm).log := by
  simp [atStart, Iteration.solution, startLog]

end Solution

namespace Solver

variable {s : Solver α} {F : NonlinearSystem α} {tolerance : α} {limit : Limit}

/-- A step that does not increase the norm is taken as it is. -/
lemma newtonStep_leads_full (bound : s.system = some F) {x r : Tensor α} {norm : α} {index : ℤ}
    {R : Tensor α → List α → Prop}
    (linear : Leads (linearSolve x r norm index) s (fun result _ => R result.1 result.2)
      fun _ => False) {Q : StepOutcome α → Prop}
    (full : ∀ proposed norms, R proposed norms → ∃ dx newNorm y size,
      F.guard.step x proposed = .ok dx ∧ normAfter F x dx = .ok newNorm ∧ newNorm ≤ norm ∧
      Tensor.combine (· - ·) x dx = .ok y ∧ dx.maxNorm = .ok size ∧
      Q ⟨some y, newNorm, size, norms.length, 0⟩) :
    Leads (newtonStep x r norm index) s (fun out _ => Q out) fun _ => False := by
  unfold newtonStep
  refine Leads.bind (linear.and (linearSolve_stays x r norm index s)) ?_
  rintro ⟨proposed, norms⟩ t ⟨solved, kept⟩
  obtain ⟨dx, newNorm, y, size, guarded, value, le, moved, largest, holds⟩ :=
    full proposed norms solved
  rw [leads_bind]
  refine boundSystem_leads (kept.system.trans bound) (.ok_bind guarded (.ok_bind value ?_))
  rw [if_pos le]
  exact .ok_bind moved (.ok_bind largest holds)

end Solver

namespace Settings.Quiet

open Solver

variable {s : Solver α} {F : NonlinearSystem α} {tolerance : α} {limit : Limit}

lemma advance_eq_ok {settings : Settings α} (quiet : settings.Quiet tolerance limit)
    (it : Iteration α) (y : Tensor α) (norm size : α) :
    it.advance settings y norm size = .ok (it.stepped tolerance y norm) := by
  simp [Iteration.advance, Iteration.stepped, quiet.tolerance, quiet.unset]

variable (quiet : s.settings.Quiet tolerance limit) (bound : s.system = some F)
include quiet bound

/-- What a pass comes to is known as soon as its step is. -/
lemma pass_leads (it : Iteration α) {r : Tensor α} (value : F.residual it.state = .ok r)
    {Q : StepOutcome α → Tensor α → Prop}
    (step : Leads (newtonStep it.state r r.norm (it.iterations + 1))
      (s.logged (.evaluated it.state)) (fun out _ => ∃ y, out.state = some y ∧ Q out y)
      fun _ => False)
    (refreshes : ∀ out y, Q out y → ∃ p, s.preconditioner.refreshAt y = .ok p) :
    Leads (Solver.pass it) s
      (fun result t => ∃ out y, out.state = some y ∧ Q out y ∧ t.settings = s.settings ∧
        t.log = s.log ++ [.evaluated it.state, .attempted it.state out, .refreshed y] ∧
        result = (it.stepped tolerance y out.norm, (it.stepped tolerance y out.norm).goesOn limit))
      fun _ => False := by
  unfold Solver.pass
  rw [leads_bind]
  refine callHook_leads_of_none (quiet.unhooked _) ?_
  rw [if_neg (by simp), leads_bind]
  refine evaluate_leads_of_eq_ok bound value ?_
  -- What the step comes to is assumed. That it leaves settings, preconditioner and log alone holds
  -- of every step.
  have stays := (newtonStep_leads (s := s.logged (.evaluated it.state)) bound it.state r r.norm
    (it.iterations + 1)).mono (fun _ _ attempt => attempt.2) fun _ => id
  refine Leads.bind (step.and stays) ?_
  rintro out t ⟨⟨y, taken, holds⟩, kept⟩
  have settings : t.settings = s.settings := kept.settings
  rw [leads_bind, leads_record, taken]
  dsimp only
  rw [leads_bind]
  refine callHook_leads_of_none (by simpa [settings] using quiet.unhooked _) ?_
  rw [if_neg (by simp), leads_bind, leads_record, leads_bind, leads_get]
  obtain ⟨p, refreshed⟩ := refreshes out y holds
  refine .ok_bind (by simpa [kept.preconditioner] using refreshed) ?_
  rw [leads_bind, leads_modify]
  refine Leads.bind (reportNewton_leads (by simpa [settings] using quiet.directory) _ _ _ _ _) ?_
  rintro - _ ⟨files, rfl⟩
  rw [leads_bind, leads_get, logged_settings, logged_settings, settings]
  refine .ok_bind (quiet.advance_eq_ok it y out.norm out.size) (.ok_bind quiet.maxIterations ?_)
  refine ⟨out, y, taken, holds, rfl, ?_, by simp⟩
  simp [logged, kept.log]

variable {x y r : Tensor α} {v : Vec α} {p : Preconditioner α} {W : Option (Workspace α) → Prop}
  (vector : initialState x = .ok v)
  (allocates : Leads (allocate v.length) { s with log := [] } (fun _ t => W t.workspace)
    fun _ => False)
  (guarded : F.guard.value (Tensor.ofVec v) = .ok y) (value : F.residual y = .ok r)
  (built : s.preconditioner.startAt y = .ok p)
include vector allocates guarded value built

lemma prepare_leads :
    Leads (prepare x) s
      (fun o t => o = ⟨r.norm, .starting tolerance y r.norm, limit,
          limit.room + s.settings.extraPasses⟩ ∧
        t.settings = s.settings ∧ t.system = s.system ∧ t.preconditioner = p ∧ W t.workspace ∧
        t.log = startLog v y)
      fun _ => False := by
  unfold prepare outset
  rw [leads_bind, leads_modify, leads_bind, leads_get]
  extract_lets goes_on
  rw [if_neg (by simp [bound])]
  refine .ok_bind vector ?_
  refine Leads.bind (allocates.and (allocate_stays v.length { s with log := [] })) ?_
  rintro - t ⟨space, kept⟩
  have settings : t.settings = s.settings := kept.settings
  extract_lets x₀
  rw [leads_bind]
  refine callHook_leads_of_none (by simpa [settings] using quiet.unhooked _) ?_
  rw [leads_bind]
  refine boundSystem_leads (kept.system.trans bound) ?_
  rw [leads_bind, leads_record]
  refine .ok_bind guarded ?_
  rw [leads_bind]
  have system : (t.logged (.guarded x₀)).system = some F := kept.system.trans bound
  refine evaluate_leads_of_eq_ok system value ?_
  rw [leads_bind, leads_record, leads_bind, leads_get]
  refine .ok_bind (by simpa [kept.preconditioner] using built) ?_
  rw [leads_bind, leads_modify]
  refine Leads.bind (reportNewton_leads (by simpa [settings] using quiet.directory) _ _ _ _ _) ?_
  rintro - _ ⟨files, rfl⟩
  rw [leads_bind, leads_get, logged_settings, logged_settings, logged_settings, settings]
  refine .ok_bind quiet.tolerance (.ok_bind quiet.maxIterations ?_)
  refine ⟨by simp [Iteration.starting], rfl, kept.system, rfl, space, ?_⟩
  simp [logged, kept.log, x₀, startLog]

/-- What a run comes to that ends at the state to start from, or behind one step. -/
theorem solve_leads (room : 0 < limit.room) {Q : StepOutcome α → Tensor α → Prop}
    (step : ¬ r.norm ≤ tolerance → ∀ t : Solver α, t.settings = s.settings → t.system = s.system →
      t.preconditioner = p → W t.workspace →
      Leads (newtonStep y r r.norm 1) t (fun out _ => ∃ z, out.state = some z ∧ Q out z)
        fun _ => False)
    (last : ∀ out z, Q out z → (∃ q, p.refreshAt z = .ok q) ∧
      (out.norm < tolerance ∨ limit = .count 1)) :
    Leads (solve x) s
      (fun sol _ => r.norm ≤ tolerance ∧ sol = .atStart tolerance v y r.norm ∨
        ¬ r.norm ≤ tolerance ∧ ∃ out z, out.state = some z ∧ Q out z ∧
          sol = .afterStep tolerance v y r.norm out z)
      fun _ => False := by
  have concluded (it : Iteration α) (t : Solver α) (settings : t.settings = s.settings) :
      Leads (conclude r.norm it) t (fun sol _ => sol = it.solution r.norm t.log)
        fun _ => False := by
    unfold conclude
    rw [leads_bind]
    exact callHook_leads_of_none (settings ▸ quiet.unhooked .postsolve) rfl
  rw [solve_eq]
  refine Leads.bind (quiet.prepare_leads bound vector allocates guarded value built) ?_
  rintro _ t ⟨rfl, settings, system, preconditioner, space, log_eq⟩
  by_cases small : r.norm ≤ tolerance
  · rw [if_neg (by simp [Outset.begins, Iteration.goesOn, Iteration.starting, small])]
    refine (concluded _ t settings).mono ?_ fun _ => id
    rintro sol _ rfl
    exact .inl ⟨small, by rw [log_eq]; rfl⟩
  have begins := Limit.allows_zero_of_room room
  rw [if_pos (by simp [Outset.begins, Iteration.goesOn, Iteration.starting, small, begins])]
  obtain ⟨m, some_pass⟩ := Nat.exists_eq_succ_of_ne_zero
    (show limit.room + s.settings.extraPasses ≠ 0 by omega)
  rw [some_pass, passes, bind_assoc]
  have attempt := (settings ▸ quiet : t.settings.Quiet tolerance limit).pass_leads
    (system.trans bound) (.starting tolerance y r.norm) value
    (step small (t.logged (.evaluated y)) settings system preconditioner space)
    (fun out z holds => preconditioner ▸ (last out z holds).1)
  refine Leads.bind attempt ?_
  rintro _ u ⟨out, z, taken, holds, settings', log', rfl⟩
  -- The first step meets the tolerance, or it is the only one that is allowed.
  have ends : ((Iteration.starting tolerance y r.norm).stepped tolerance z out.norm).goesOn limit
      = false := by
    rcases (last out z holds).2 with below | rfl
    · simp [Iteration.goesOn, Iteration.stepped, below]
    · simp [Iteration.goesOn, Iteration.stepped, Iteration.starting]
  dsimp only
  rw [ends]
  refine (concluded _ u (settings'.trans settings)).mono ?_ fun _ => id
  rintro sol _ rfl
  exact .inr ⟨small, out, z, taken, holds, by rw [log', log_eq]; rfl⟩

end Settings.Quiet

/-! ### Residuals on points -/

section Points

open Vec Solver

variable {n : ℕ} {s : Solver ℝ} {F : Operator ℝ} {G : Space n → Space n}
  (bound : s.system = some ⟨F, .none⟩) (acts : ActsAs F G) (x : Space n)
include bound acts

/-- A full step that does not increase the norm of the residual. -/
lemma Solver.newtonStep_leads_ofSpace {norm : ℝ} {index : ℤ} {r : Tensor ℝ}
    {R : Space n → List ℝ → Prop}
    (linear : Leads (linearSolve (Tensor.ofVec (ofSpace x)) r norm index) s
      (fun result _ => ∃ d : Space n, result.1 = Tensor.ofVec (ofSpace d) ∧ R d result.2)
      fun _ => False)
    (le : ∀ d norms, R d norms → ‖G (x - d)‖ ≤ norm) :
    Leads (newtonStep (Tensor.ofVec (ofSpace x)) r norm index) s
      (fun out _ => ∃ d norms size, R d norms ∧
        out = ⟨some (Tensor.ofVec (ofSpace (x - d))), ‖G (x - d)‖, size, norms.length, 0⟩)
      fun _ => False := by
  refine newtonStep_leads_full bound
    (R := fun dx norms => ∃ d : Space n, dx = Tensor.ofVec (ofSpace d) ∧ R d norms) linear ?_
  rintro _ norms ⟨d, rfl, holds⟩
  have value : normAfter ⟨F, .none⟩ (Tensor.ofVec (ofSpace x)) (Tensor.ofVec (ofSpace d))
      = .ok ‖G (x - d)‖ := by
    unfold normAfter
    simp [Tensor.combine_sub_ofSpace, acts (x - d), norm_ofSpace]
  exact ⟨_, _, _, _, rfl, value, le d norms holds, Tensor.combine_sub_ofSpace x d,
    Tensor.maxNorm_ofVec _, d, norms, _, holds, rfl⟩

theorem Settings.Quiet.solve_leads_ofSpace {tolerance : ℝ} {limit : Limit}
    (quiet : s.settings.Quiet tolerance limit) (room : 0 < limit.room)
    {W : Option (Workspace ℝ) → Prop}
    (allocates : Leads (allocate n) { s with log := [] } (fun _ t => W t.workspace) fun _ => False)
    {p : Preconditioner ℝ} (built : s.preconditioner.startAt (Tensor.ofVec (ofSpace x)) = .ok p)
    {Q : StepOutcome ℝ → Space n → Prop}
    (step : tolerance < ‖G x‖ → ∀ t : Solver ℝ, t.settings = s.settings → t.system = s.system →
      t.preconditioner = p → W t.workspace →
      Leads (newtonStep (Tensor.ofVec (ofSpace x)) (Tensor.ofVec (ofSpace (G x))) ‖G x‖ 1) t
        (fun out _ => ∃ z, out.state = some (Tensor.ofVec (ofSpace z)) ∧ Q out z) fun _ => False)
    (last : ∀ out z, Q out z →
      (∃ q, p.refreshAt (Tensor.ofVec (ofSpace z)) = .ok q) ∧ out.norm < tolerance) :
    Leads (solve (Tensor.ofVec (ofSpace x))) s
      (fun sol _ => ‖G x‖ ≤ tolerance ∧
          sol = .atStart tolerance (ofSpace x) (Tensor.ofVec (ofSpace x)) ‖G x‖ ∨
        tolerance < ‖G x‖ ∧ ∃ out z, Q out z ∧
          sol = .afterStep tolerance (ofSpace x) (Tensor.ofVec (ofSpace x)) ‖G x‖ out
            (Tensor.ofVec (ofSpace z)))
      fun _ => False := by
  have norm_eq : (Tensor.ofVec (ofSpace (G x))).norm = ‖G x‖ := norm_ofSpace _
  have vector : initialState (Tensor.ofVec (ofSpace x)) = .ok (ofSpace x) := by
    simp [initialState, Tensor.ofVec]
  have allocates : Leads (allocate (ofSpace x).length) { s with log := [] }
      (fun _ t => W t.workspace) fun _ => False := by
    rwa [length_ofSpace]
  refine (quiet.solve_leads bound (Q := fun out y => ∃ z, y = Tensor.ofVec (ofSpace z) ∧ Q out z)
    vector allocates rfl (acts x) built room ?_ ?_).mono ?_ fun _ => id
  · intro missed t settings system preconditioner workspace
    rw [norm_eq] at missed ⊢
    refine (step (not_le.mp missed) t settings system preconditioner workspace).mono ?_ fun _ => id
    rintro out _ ⟨z, taken, holds⟩
    exact ⟨_, taken, z, rfl, holds⟩
  · rintro out _ ⟨z, rfl, holds⟩
    exact ⟨(last out z holds).1, .inl (last out z holds).2⟩
  · rw [norm_eq]
    rintro sol _ (⟨small, rfl⟩ | ⟨missed, out, _, -, ⟨z, rfl, holds⟩, rfl⟩)
    · exact .inl ⟨small, rfl⟩
    · exact .inr ⟨not_le.mp missed, out, z, holds, rfl⟩

end Points

end NewtonKrylov
