import NewtonKrylov.Proofs.LinearSystem.Residual
import NewtonKrylov.Proofs.Newton.LinearSolve

/-!
# The linear solve of a Newton step is the restarted method

The linear solve of a Newton step counts cycles, compares residual norms with an absolute tolerance
and applies the preconditioner after each cycle. The restarted method for linear systems counts
steps, compares with a multiple of the first norm and applies the preconditioner to the sum of all
updates. For the difference quotient of the residual both find the same step and the same norms.

A cycle that leaves its residual above the tolerance has taken all the steps it may take. So the
steps that are left always make up the cycles that are left, no cycle is shortened, and both methods
stop after the same one.
-/

namespace NewtonKrylov

open Vec NewtonKrylov.Cycle

/-! ### Difference quotients -/

/-- The difference quotients of a function at `x`, where its value is `r`. -/
def differenceQuotient {α : Type} [Scalar α] (F : Operator α) (ε : α) (x r : Tensor α) :
    Operator α := fun v => do
  let probe ← Tensor.combine (· + ·) x (v.smul ε)
  let change ← Tensor.combine (· - ·) (← F probe) r
  return change.map (· / ε)

variable {n : ℕ}

lemma ActsAs.differenceQuotient {f : Operator ℝ} {G : Space n → Space n} (acts : ActsAs f G) (ε : ℝ)
    (x r : Space n) :
    ActsAs (differenceQuotient f ε (Tensor.ofVec (ofSpace x)) (Tensor.ofVec (ofSpace r)))
      fun v => ε⁻¹ • (G (x + ε • v) - r) := by
  intro v
  unfold NewtonKrylov.differenceQuotient
  rw [Tensor.smul_ofSpace, Tensor.combine_add_ofSpace, ok_bind, acts, ok_bind,
    Tensor.combine_sub_ofSpace, ok_bind, Tensor.map_div_ofSpace]
  rfl

namespace Cycle

/-- A cycle that ends above its tolerance has taken all the steps it may take. -/
lemma Finished.steps_eq {F : Space n → Space n} {r₀ : Space n} {tolerance : ℝ} {limit : ℕ}
    {ws : Workspace ℝ} {p : Progress ℝ} {out : Outcome ℝ}
    (E : Finished F r₀ tolerance limit ws p out) (nonneg : 0 ≤ tolerance)
    (above : tolerance < out.norm) : out.steps = limit := by
  rcases E.reason with all | below | zero
  · rw [E.steps, all]
  · exact absurd below above.not_gt
  · exact absurd above (zero ▸ nonneg.not_gt)

end Cycle

namespace Solver

section Jacobian

variable {α : Type} [Scalar α] {s : Solver α} {F : NonlinearSystem α} {ε : α}

/-- The Jacobian after the preconditioner is a preconditioned difference quotient. -/
lemma jacobian_eq (system : s.system = some F)
    (difference : s.settings.difference = .number (.ok ε)) (x r : Tensor α) {o : LinearOptions α}
    (left : o.left = Except.ok) (right : o.right = s.preconditioner.action) :
    s.jacobian x r = LinearSystem.preconditioned o (differenceQuotient F.residual ε x r) := by
  have bind_ok (t : Except Error (Tensor α)) : t >>= Except.ok = t := bind_pure t
  funext z
  unfold jacobian LinearSystem.preconditioned
  rw [system, difference, left, right]
  simp only [bind_ok]
  rfl

end Jacobian

/-! ### The cycles of both methods -/

section Cycles

variable {s : Solver ℝ} {x r : Tensor ℝ} {op : Operator ℝ} {B : Space n → Space n}
  {P : Space n →ₗ[ℝ] Space n} {ν τ : ℝ} {m : ℕ}

/-- A solver whose cycles are those of `op`, with a work space for `m` steps. -/
structure Cycling (n m : ℕ) (s : Solver ℝ) (x r : Tensor ℝ) (op : Operator ℝ)
    (P : Space n →ₗ[ℝ] Space n) (ν τ : ℝ) : Prop where
  jacobian : s.jacobian x r = op
  preconditioner : ActsAs s.preconditioner.action P
  threshold : s.settings.threshold = .ok ν
  tolerance : s.settings.krylovTolerance = .ofNumber τ
  workspace : ∃ used, s.workspace = some used ∧ used.reset = .empty n m

namespace Cycling

lemma withWorkspace (cycling : Cycling n m s x r op P ν τ) {ws : Workspace ℝ}
    (reset : ws.reset = .empty n m) : Cycling n m (s.withWorkspace ws) x r op P ν τ :=
  ⟨cycling.jacobian, cycling.preconditioner, cycling.threshold, cycling.tolerance, ws, rfl,
    reset⟩

/-- A cycle of a linear solve does what the cycle does from another work space, and applies the
preconditioner to the update. -/
lemma krylovCycle_leads (cycling : Cycling n m s x r op P ν τ) {rₖ : Tensor ℝ} {norm : ℝ}
    {other ws : Workspace ℝ} (empty : other.reset = .empty n m) {out : Outcome ℝ}
    (run : (Cycle.run op rₖ norm (.ok ν) (.ok τ) m).run other = (.ok out, ws))
    (length : out.update.length = n) (some_step : out.steps ≠ 0) :
    Leads (krylovCycle x r rₖ norm) s
      (fun result t => result = (Tensor.ofVec (ofSpace (P (toSpace n out.update))), out) ∧
        t = s.withWorkspace ws) fun _ => False := by
  obtain ⟨used, given, reset⟩ := cycling.workspace
  have capacity : used.capacity = m := congrArg Workspace.capacity reset
  rw [← Cycle.run_congr (reset.trans empty.symm)] at run
  refine krylovCycle_applies given ?_ some_step (cycling.preconditioner.apply length)
  rw [cycleIn, cycling.threshold, cycling.tolerance, Tolerance.ofNumber, cycling.jacobian, capacity,
    run]

/-- One cycle of several. The others follow if it leaves the residual above the tolerance. -/
lemma krylovCycles_succ (cycling : Cycling n m s x r op P ν τ) {rₖ : Tensor ℝ} {norm : ℝ}
    {d : Space n} {out : Outcome ℝ} {ws : Workspace ℝ}
    (cycle : Leads (krylovCycle x r rₖ norm) s
      (fun result t => result = (Tensor.ofVec (ofSpace d), out) ∧ t = s.withWorkspace ws)
      fun _ => False)
    (some_step : out.steps ≠ 0) {N : ℕ} {y : Space n}
    {Q : Tensor ℝ × List ℝ → Solver ℝ → Prop}
    (stops : out.norm ≤ τ → Q (Tensor.ofVec (ofSpace (y + d)), out.history) (s.withWorkspace ws))
    (goes_on : τ < out.norm →
      Leads (krylovCycles x r N (Tensor.ofVec (ofSpace (y + d))) out.residual out.norm)
        (s.withWorkspace ws) (fun result t => Q (result.1, out.history ++ result.2) t)
        fun _ => False) :
    Leads (krylovCycles x r (N + 1) (Tensor.ofVec (ofSpace y)) rₖ norm) s Q fun _ => False := by
  unfold krylovCycles
  refine cycle.bind ?_
  rintro _ _ ⟨rfl, rfl⟩
  refine .ok_bind (Tensor.update_add_ofSpace y d) ?_
  rw [leads_bind, leads_get]
  refine .ok_bind (cycling.tolerance ▸ Tolerance.bound_ofNumber τ (norm == 0)) ?_
  split_ifs with done
  · exact stops (done.resolve_right some_step)
  · exact (goes_on (not_le.mp fun le => done (Or.inl le))).bind fun _ _ result => result

open LinearSystem in
/-- A cycle of both methods from a residual above the tolerance. -/
lemma exists_cycle (acts : ActsAs op B) (fits : m ≤ n) (room : 0 < m) (nonneg : 0 ≤ τ)
    (cycling : Cycling n m s x r op P ν τ) {state : State ℝ} (T : Consistent n m state)
    (large : τ < state.norm) :
    ∃ ws out d,
      (Cycle.run op state.residual state.norm (.ok ν) (.ok τ) m).run state.workspace
        = (.ok out, ws) ∧
      ws.reset = .empty n m ∧ Consistent n m (state.advance ws out) ∧
      0 < out.steps ∧ (τ < out.norm → out.steps = m) ∧
      P (state.point n) + d = P ((state.advance ws out).point n) ∧
      Leads (krylovCycle x r state.residual state.norm) s
        (fun result t => result = (Tensor.ofVec (ofSpace d), out) ∧ t = s.withWorkspace ws)
        fun _ => False := by
  have nonzero : state.residualPoint n ≠ 0 := by
    rw [← norm_pos_iff, ← T.norm]
    exact nonneg.trans_lt large
  obtain ⟨ws, p, out, run, reset, E⟩ := run_ends acts fits T.workspace nonzero ν τ
    (show (min (m : ℤ) m).toNat ≠ 0 by omega)
  rw [min_self, Int.toNat_natCast] at E
  rw [← T.residual, ← T.norm] at run
  have length : out.update.length = n := by rw [E.update, length_ofSpace]
  have some_step : 0 < out.steps := E.steps ▸ E.positive
  refine ⟨ws, out, P (toSpace n out.update), run, reset, T.advance reset E.carried, some_step,
    E.steps_eq nonneg, ?_, cycling.krylovCycle_leads T.workspace run length some_step.ne'⟩
  rw [point_advance T E.carried, map_add]

open LinearSystem in
/-- The cycles of a linear solve of at most `N` cycles are those of the restarted method with the
steps of `N` cycles. The step is the preconditioned update, and the norms are those that the history
gets. -/
theorem krylovCycles_leads (acts : ActsAs op B) (fits : m ≤ n) (room : 0 < m) (nonneg : 0 ≤ τ)
    {N : ℕ} (some_cycle : 1 ≤ N) {s : Solver ℝ} (cycling : Cycling n m s x r op P ν τ)
    {state : State ℝ} (T : Consistent n m state) (large : τ < state.norm) :
    ∃ last norms, cycles op ν τ (N * m) m state = .ok last ∧ Consistent n m last ∧
      last.history = state.history ++ norms ∧
      Leads (krylovCycles x r N (Tensor.ofVec (ofSpace (P (state.point n)))) state.residual
        state.norm) s
        (fun result t => result = (Tensor.ofVec (ofSpace (P (last.point n))), norms) ∧
          ∃ ws, t = s.withWorkspace ws) fun _ => False := by
  -- By induction on the cycles. A cycle that leaves the residual above the tolerance has used up
  -- its `m` steps, so `N` cycles and `N * m` steps run out together.
  induction N generalizing s state with
  | zero => omega
  | succ N ih =>
    obtain ⟨ws, out, d, run, reset, kept, some_step, full, sum, cycle⟩ :=
      cycling.exists_cycle acts fits room nonneg T large
    rw [cycles_of_run run]
    by_cases goes_on : τ < out.norm ∧ N ≠ 0
    · obtain ⟨above, more⟩ := goes_on
      have left : (N + 1) * m - m = N * m := by rw [Nat.succ_mul, Nat.add_sub_cancel]
      have enough : m ≤ N * m := Nat.le_mul_of_pos_left m (Nat.pos_of_ne_zero more)
      have fewer : m < (N + 1) * m := by
        rw [Nat.succ_mul]
        omega
      obtain ⟨last, norms, ran, final, history, leads⟩ :=
        ih (by omega) (cycling.withWorkspace reset) kept above
      rw [full above, if_pos ⟨above, fewer, room⟩, left, min_eq_left enough]
      refine ⟨last, out.history ++ norms, ran, final, ?_, ?_⟩
      · rw [history, ← List.append_assoc]
        rfl
      · refine cycling.krylovCycles_succ cycle some_step.ne' (fun le => absurd le above.not_ge)
          fun _ => ?_
        rw [sum]
        refine leads.mono ?_ fun _ => id
        rintro _ _ ⟨rfl, last_space, rfl⟩
        exact ⟨rfl, last_space, rfl⟩
    · -- The residual is not above the tolerance, or no cycle is left and the steps are used up.
      have stops : ¬ (τ < out.norm ∧ out.steps < (N + 1) * m ∧ 0 < out.steps) := by
        rintro ⟨above, fewer, -⟩
        refine goes_on ⟨above, ?_⟩
        rintro rfl
        rw [full above] at fewer
        omega
      rw [if_neg stops]
      refine ⟨state.advance ws out, out.history, rfl, kept, rfl, ?_⟩
      refine cycling.krylovCycles_succ cycle some_step.ne' (fun _ => ?_) fun above => ?_
      · rw [sum]
        exact ⟨rfl, ws, rfl⟩
      · obtain rfl : N = 0 := not_not.mp fun more => goes_on ⟨above, more⟩
        rw [sum]
        exact ⟨by rw [List.append_nil], ws, rfl⟩

end Cycling

end Cycles

/-! ### The work space -/

section Allocated

variable {α : Type} {s : Solver α} {k : ℤ}

/-- A work space that is kept for `n` dimensions is one for as many steps as the setting says, and
no more than there are dimensions. -/
lemma workspace_of_allocate
    (steps : s.settings.krylovSteps.getD (.ok (.count n)) = .ok (.count k))
    (kept : ((allocate n).run s).1 = .ok true) :
    ∃ ws, s.workspace = some ws ∧ ws.dimension = n ∧ (ws.capacity : ℤ) = min k n := by
  have fits : Leads (allocate n) s (fun kept _ => kept = true → ∃ ws, s.workspace = some ws ∧
      ws.dimension = n ∧ (ws.capacity : ℤ) = min k n) fun _ => True := by
    unfold allocate
    rw [leads_bind, leads_get]
    refine .ok_bind steps ?_
    dsimp only
    split_ifs with fits
    · obtain ⟨ws, given, same⟩ := (Option.any_eq_true _ _).mp fits
      obtain ⟨dimension, capacity⟩ := Bool.and_eq_true_iff.mp same
      have dimension : (ws.dimension : ℤ) = n := of_decide_eq_true dimension
      exact fun _ => ⟨ws, given, by omega, equals_atMost capacity⟩
    · refine .lift_bind trivial fun size _ => .lift_bind trivial fun ws _ => ?_
      rw [leads_bind, leads_set]
      exact fun impossible => absurd impossible Bool.false_ne_true
  unfold Leads at fits
  -- A failed allocation keeps nothing, so the premise excludes it.
  match run : (allocate n).run s with
  | (.ok b, t) =>
    rw [run] at fits kept
    exact fits (Except.ok.inj kept)
  | (.error e, t) => exact absurd (run ▸ kept) (by simp)

end Allocated

/-! ### The linear solve -/

/-- The reports after a linear solve with a history of residual norms. -/
def krylovReport {α : Type} (directory : Option (Setting String)) (index : ℤ) (history : List α)
    (files : ReportFiles α) : ReportFiles α :=
  match directory with
  | some (.ok path) => files.write (krylovPath path index)
      (.krylovHeading :: history.zipIdx.map fun (a, i) => .krylov i a)
  | _ => files

/-- A linear solve hands on what its cycles have come to, and reports the norms. -/
lemma linearSolve_of_krylovCycles {α : Type} [Scalar α] {s : Solver α} {N : ℕ}
    (restarts : s.settings.restarts = .ok N) (directory : Usable s.settings.krylovDirectory)
    {x r dx : Tensor α} {norm : α} {norms : List α}
    (cycles : Leads (krylovCycles x r N (Tensor.zeros x.shape) r norm) s
      (fun result t => result = (dx, norms) ∧ ∃ ws, t = s.withWorkspace ws) fun _ => False)
    (index : ℤ) :
    Leads (linearSolve x r norm index) s
      (fun result t => result = (dx, norms) ∧
        t.files = krylovReport s.settings.krylovDirectory index (norm :: norms) s.files)
      fun _ => False := by
  unfold linearSolve
  rw [leads_bind, leads_get]
  refine .ok_bind restarts ?_
  refine cycles.bind ?_
  rintro _ _ ⟨rfl, ws, rfl⟩
  unfold krylovReport
  dsimp only
  cases given : s.settings.krylovDirectory with
  | none => exact ⟨rfl, rfl⟩
  | some d =>
    obtain ⟨path, rfl⟩ := directory d given
    exact .ok_bind rfl ⟨rfl, rfl⟩

/-- A solver for the system `F`, which acts as `G`, with a linear preconditioner `P`, and with
settings for at most `N` cycles of at most `k` steps in each linear solve. -/
structure Restarting (n : ℕ) (s : Solver ℝ) (F : NonlinearSystem ℝ) (G : Space n → Space n)
    (P : Space n →ₗ[ℝ] Space n) (ε ν τ : ℝ) (N : ℕ) (k : ℤ) : Prop where
  system : s.system = some F
  residual : ActsAs F.residual G
  preconditioner : ActsAs s.preconditioner.action P
  difference : s.settings.difference = .number (.ok ε)
  scale : 0 < ε
  threshold : s.settings.threshold = .ok ν
  tolerance : s.settings.krylovTolerance = .ofNumber τ
  nonneg : 0 ≤ τ
  restarts : s.settings.restarts = .ok N
  some_cycle : 1 ≤ N
  steps : s.settings.krylovSteps.getD (.ok (.count n)) = .ok (.count k)
  some_step : 1 ≤ k
  directory : Usable s.settings.krylovDirectory
  allocated : ((allocate n).run s).1 = .ok true

/-- The options with which the restarted method does a linear solve of a solver. -/
noncomputable def restartOptions (s : Solver ℝ) (ν τ norm : ℝ) (N : ℕ) (m : ℤ) : LinearOptions ℝ :=
  { restart := some m, maxSteps := some (N * m), tolerance := τ / norm, threshold := ν,
    right := s.preconditioner.action }

section Options

open LinearSystem

variable {s : Solver ℝ} {ν τ norm : ℝ} {N m : ℕ}

lemma stepsAllowed_restartOptions :
    (stepsAllowed n (restartOptions s ν τ norm N m)).toNat = N * m := by
  change ((N : ℤ) * m).toNat = N * m
  omega

lemma cycleLimit_restartOptions (some_cycle : 1 ≤ N) (fits : m ≤ n) :
    cycleLimit n (restartOptions s ν τ norm N m) = m := by
  change (min (m : ℤ) (min ((N : ℤ) * m) n)).toNat = m
  have enough : (m : ℤ) ≤ N * m := by exact_mod_cast Nat.le_mul_of_pos_left m some_cycle
  omega

lemma limitsOk_restartOptions (room : 0 < m) :
    LimitsOk n (restartOptions s ν τ norm N m) where
  restart := by
    rintro _ ⟨rfl⟩
    omega
  steps := by
    change 0 ≤ (N : ℤ) * m
    positivity

end Options

/-- The difference quotients of a system at `x`, where it has the value `r`. -/
noncomputable def quotientAt (F : NonlinearSystem ℝ) (ε : ℝ) (x r : Space n) : Operator ℝ :=
  differenceQuotient F.residual ε (Tensor.ofVec (ofSpace x)) (Tensor.ofVec (ofSpace r))

namespace Restarting

open LinearSystem

variable {s : Solver ℝ} {F : NonlinearSystem ℝ} {G : Space n → Space n}
  {P : Space n →ₗ[ℝ] Space n} {ε ν τ : ℝ} {N m : ℕ} {k : ℤ}

lemma maps (restarting : Restarting n s F G P ε ν τ N k) (x : Space n) :
    Maps n (.function (quotientAt F ε x (G x))) (restartOptions s ν τ ‖G x‖ N m)
      (quotientAt F ε x (G x)) (fun v => ε⁻¹ • (G (x + ε • v) - G x)) id P :=
  ⟨rfl, restarting.residual.differenceQuotient ε x (G x), ActsAs.ok, restarting.preconditioner⟩

lemma cycling (restarting : Restarting n s F G P ε ν τ N k) (capacity : (m : ℤ) = min k n)
    (x : Space n) :
    Cycling n m s (Tensor.ofVec (ofSpace x)) (Tensor.ofVec (ofSpace (G x)))
      (preconditioned (restartOptions s ν τ ‖G x‖ N m) (quotientAt F ε x (G x))) P ν τ where
  jacobian := jacobian_eq restarting.system restarting.difference _ _ rfl rfl
  preconditioner := restarting.preconditioner
  threshold := restarting.threshold
  tolerance := restarting.tolerance
  workspace := by
    obtain ⟨used, given, dimension, room⟩ :=
      workspace_of_allocate restarting.steps restarting.allocated
    obtain rfl : used.capacity = m := by omega
    exact ⟨used, given, by rw [Workspace.reset, dimension]⟩

/-- The cycles of both methods from the residual at `x`. -/
lemma runCycles_leads (restarting : Restarting n s F G P ε ν τ N k)
    (capacity : (m : ℤ) = min k n) (room : 0 < m) (x : Space n) (large : τ < ‖G x‖) :
    ∃ last norms,
      runCycles n (restartOptions s ν τ ‖G x‖ N m) (quotientAt F ε x (G x)) (ofSpace (G x))
        = .ok last ∧
      last.update.length = n ∧ last.history = ‖G x‖ :: norms ∧
      Leads (krylovCycles (Tensor.ofVec (ofSpace x)) (Tensor.ofVec (ofSpace (G x))) N
        (Tensor.zeros (Tensor.ofVec (ofSpace x)).shape) (Tensor.ofVec (ofSpace (G x))) ‖G x‖) s
        (fun result t => result = (Tensor.ofVec (ofSpace (P (last.point n))), norms) ∧
          ∃ ws, t = s.withWorkspace ws) fun _ => False := by
  have fits : m ≤ n := by omega
  have some_cycle := restarting.some_cycle
  have nonzero : ‖G x‖ ≠ 0 := (restarting.nonneg.trans_lt large).ne'
  have tolerance : (restartOptions s ν τ ‖G x‖ N m).tolerance * ‖G x‖ = τ :=
    div_mul_cancel₀ τ nonzero
  have some_steps : 0 < stepsAllowed n (restartOptions s ν τ ‖G x‖ N m) := by
    change 0 < (N : ℤ) * m
    positivity
  have limit : cycleLimit n (restartOptions s ν τ ‖G x‖ N m) = m :=
    cycleLimit_restartOptions some_cycle fits
  have T := consistent_start (restartOptions s ν τ ‖G x‖ N m) (G x)
  have norm : (start n (restartOptions s ν τ ‖G x‖ N m) (ofSpace (G x))).norm = ‖G x‖ :=
    norm_ofSpace (G x)
  have point : (start n (restartOptions s ν τ ‖G x‖ N m) (ofSpace (G x))).point n = 0 :=
    toSpace_zeros n
  rw [limit] at T
  obtain ⟨last, norms, ran, kept, history, leads⟩ :=
    (restarting.cycling capacity x).krylovCycles_leads (restarting.maps x).actsAs_preconditioned
      fits room restarting.nonneg some_cycle T (norm ▸ large)
  refine ⟨last, norms, ?_, kept.update, ?_, ?_⟩
  · unfold runCycles
    rw [norm_ofSpace, tolerance, stepsAllowed_restartOptions, limit]
    exact (if_pos ⟨large, some_steps⟩).trans ran
  · rw [history]
    change [Vec.norm (ofSpace (G x))] ++ norms = _
    rw [norm_ofSpace, List.singleton_append]
  · rw [point, map_zero, ofSpace_zero, norm] at leads
    have shape : (Tensor.ofVec (ofSpace x)).shape = [n] := congrArg ([·]) (length_ofSpace x)
    rw [shape, Tensor.zeros_vector]
    exact leads

end Restarting

/-- A linear solve from a state `x` finds the same step as the restarted method for the difference
quotients of the residual, with the same norms, and reports them. -/
theorem Restarting.linearSolve_eq_solve {s : Solver ℝ} {F : NonlinearSystem ℝ}
    {G : Space n → Space n} {P : Space n →ₗ[ℝ] Space n} {ε ν τ : ℝ} {N : ℕ} {k : ℤ}
    (restarting : Restarting n s F G P ε ν τ N k) (x : Space n) (large : τ < ‖G x‖) (index : ℤ) :
    ∃ dx norms t,
      (linearSolve (Tensor.ofVec (ofSpace x)) (Tensor.ofVec (ofSpace (G x))) ‖G x‖ index).run s
        = (.ok (dx, norms), t) ∧
      t.files = krylovReport s.settings.krylovDirectory index (‖G x‖ :: norms) s.files ∧
      LinearSystem.solve (.function (quotientAt F ε x (G x))) (Tensor.ofVec (ofSpace (G x)))
        (restartOptions s ν τ ‖G x‖ N (min k n)) = .ok ⟨dx, ‖G x‖ :: norms⟩ := by
  have space : 0 < n :=
    dimension_pos_of_ne_zero (norm_pos_iff.mp (restarting.nonneg.trans_lt large))
  have some_step := restarting.some_step
  obtain ⟨m, capacity⟩ : ∃ m : ℕ, (m : ℤ) = min k n := ⟨(min k n).toNat, by omega⟩
  obtain ⟨last, norms, ran, length, history, cycles⟩ :=
    restarting.runCycles_leads capacity (by omega) x large
  obtain ⟨_, t, run, rfl, files⟩ := (linearSolve_of_krylovCycles restarting.restarts
    restarting.directory cycles index).exists_ok
  -- The quotient along zero is zero, so without a guess all of the right hand side is left.
  have at_zero : id (G x - ε⁻¹ • (G (x + ε • (0 : Space n)) - G x)) = G x := by simp
  have solved := (restarting.maps x).solve_eq
    (limitsOk_restartOptions (show 0 < m by omega)) (Or.inr ⟨rfl, rfl⟩) (by rwa [at_zero]) length
  rw [zero_add, history] at solved
  rw [← capacity]
  exact ⟨_, norms, t, run, files, solved⟩

/-- The system `x ↦ x² + 1`, entrywise, with a preconditioner that halves, and with room for two
cycles of one step in each linear solve. -/
noncomputable def halving : Solver ℝ where
  settings :=
    { krylovDirectory := some (.ok "reports")
      maxIterations := .ok (.count 1)
      tolerance := .ok 0
      stepTolerance := none
      difference := .number (.ok (1 / 2))
      restarts := .ok 2
      krylovSteps := some (.ok (.count 1))
      krylovTolerance := .ofNumber 0
      threshold := .ok (1 / 2)
      searchSteps := .ok (.count 10)
      searchTolerance := .ofNumber 0
      hooks := fun _ => none }
  system := some ⟨fun t => .ok (t.map fun a => a * a + 1), .none⟩
  preconditioner := { Preconditioner.identity with action := fun t => .ok (t.smul (1 / 2)) }
  workspace := some (.empty 2 1)

lemma restarting_halving :
    Restarting 2 halving ⟨fun t => .ok (t.map fun a => a * a + 1), .none⟩
      (fun x => WithLp.toLp 2 fun i => x i * x i + 1) ((1 / 2 : ℝ) • LinearMap.id) (1 / 2) (1 / 2)
      0 2 1 where
  system := rfl
  residual := .entrywise fun a => a * a + 1
  preconditioner := fun x => congrArg Except.ok (Tensor.smul_ofSpace (1 / 2) x)
  difference := rfl
  scale := by norm_num
  threshold := rfl
  tolerance := rfl
  nonneg := le_rfl
  restarts := rfl
  some_cycle := by decide
  steps := rfl
  some_step := le_rfl
  directory := by
    rintro _ ⟨rfl⟩
    exact ⟨_, rfl⟩
  allocated := rfl

/-- From a state where the residual norm is not zero both methods go through. -/
theorem linearSolve_eq_solve_halving :
    ∃ dx norms t,
      (linearSolve (Tensor.ofVec (ofSpace !₂[1, 0])) (Tensor.ofVec (ofSpace !₂[2, 1])) (√5) 0).run
        halving = (.ok (dx, norms), t) ∧
      LinearSystem.solve
        (.function (differenceQuotient (fun t => .ok (t.map fun a => a * a + 1)) (1 / 2)
          (Tensor.ofVec (ofSpace !₂[1, 0])) (Tensor.ofVec (ofSpace !₂[2, 1]))))
        (Tensor.ofVec (ofSpace !₂[2, 1])) (restartOptions halving (1 / 2) 0 (√5) 2 1)
          = .ok ⟨dx, √5 :: norms⟩ := by
  have value : (WithLp.toLp 2 fun i => (!₂[1, 0] : Space 2) i * (!₂[1, 0] : Space 2) i + 1)
      = (!₂[2, 1] : Space 2) := by
    ext i
    fin_cases i <;> norm_num
  have norm : ‖(!₂[2, 1] : Space 2)‖ = √5 := by
    rw [EuclideanSpace.norm_eq]
    norm_num
  obtain ⟨dx, norms, t, run, -, solved⟩ :=
    restarting_halving.linearSolve_eq_solve !₂[1, 0] (by rw [value, norm]; positivity) 0
  rw [value, norm] at run solved
  exact ⟨dx, norms, t, run, solved⟩

end Solver

end NewtonKrylov
