import Mathlib.Data.Int.Notation
import Mathlib.Data.Nat.Notation
import NewtonKrylov.Newton.Step
import NewtonKrylov.Proofs.LineSearch.Run

/-!
# The run of one Newton step

Looking for a step changes nothing in a solver but the work space of the cycles and the reports, and
this is so for the linear solve before it whatever happens there. `Stays` says it of a computation,
with one rule for each way in which computations are put together. What a step can come to is one of
the three cases of `Settled`: a full step, one that a line search has shrunk, or none.
-/

namespace NewtonKrylov

namespace Solver

variable {α β γ : Type}

/-! ### What a step leaves alone -/

/-- Solvers that differ in the work space of the cycles and in the reports at most. -/
def Keeps (s t : Solver α) : Prop := ∃ ws files, t = { s with workspace := ws, files := files }

lemma Keeps.refl (s : Solver α) : Keeps s s := ⟨s.workspace, s.files, rfl⟩

lemma Keeps.trans {s t u : Solver α} (first : Keeps s t) (second : Keeps t u) : Keeps s u := by
  obtain ⟨_, _, rfl⟩ := first
  obtain ⟨ws, files, rfl⟩ := second
  exact ⟨ws, files, rfl⟩

section Keeps

variable {s t : Solver α}

lemma Keeps.system (kept : Keeps s t) : t.system = s.system := by
  obtain ⟨_, _, rfl⟩ := kept
  rfl

lemma Keeps.settings (kept : Keeps s t) : t.settings = s.settings := by
  obtain ⟨_, _, rfl⟩ := kept
  rfl

lemma Keeps.preconditioner (kept : Keeps s t) : t.preconditioner = s.preconditioner := by
  obtain ⟨_, _, rfl⟩ := kept
  rfl

lemma Keeps.log (kept : Keeps s t) : t.log = s.log := by
  obtain ⟨_, _, rfl⟩ := kept
  rfl

end Keeps

/-- A computation that changes nothing but the work space and the reports. -/
def Stays (m : SolverM α β) : Prop := ∀ s, Leads m s (fun _ t => Keeps s t) (Keeps s)

namespace Stays

lemma pure (b : β) : Stays (pure b : SolverM α β) := Keeps.refl

lemma throw (e : Error) : Stays (throw e : SolverM α β) := Keeps.refl

lemma lift (r : Except Error β) : Stays (liftM r : SolverM α β) := by
  intro s
  cases r <;> exact .refl s

lemma get : Stays (MonadState.get : SolverM α (Solver α)) := Keeps.refl

lemma report (f : ReportFiles α → ReportFiles α) : Stays (report f) := fun s =>
  ⟨s.workspace, f s.files, rfl⟩

lemma bind {m : SolverM α γ} {f : γ → SolverM α β} (first : Stays m) (rest : ∀ c, Stays (f c)) :
    Stays (m >>= f) := fun s =>
  (first s).bind fun c t kept => (rest c t).mono (fun _ _ => kept.trans) fun _ => kept.trans

lemma set_workspace {s : Solver α} (ws : Option (Workspace α)) {f : PUnit → SolverM α β}
    (rest : ∀ u, Stays (f u)) :
    Leads (MonadStateOf.set { s with workspace := ws } >>= f) s (fun _ t => Keeps s t) (Keeps s) :=
  have changed : Keeps s { s with workspace := ws } := ⟨ws, s.files, rfl⟩
  (leads_bind _ f).mpr ((rest ⟨⟩ _).mono (fun _ _ => changed.trans) fun _ => changed.trans)

end Stays

variable [Scalar α]

lemma krylovCycle_stays (x r rₖ : Tensor α) (norm : α) : Stays (krylovCycle x r rₖ norm) := by
  refine .bind ?_ fun ws => ?_
  · refine .bind .get fun s => ?_
    cases s.workspace with
    | none => exact .throw _
    | some ws => exact .pure ws
  · intro s
    rw [leads_bind, leads_get]
    split
    refine Stays.set_workspace _ fun _ => .bind (.lift _) fun out => ?_
    split_ifs
    · exact .pure _
    · exact .bind (.lift _) fun _ => .pure _

lemma krylovCycles_stays (x r : Tensor α) (n : ℕ) (dx rₖ : Tensor α) (norm : α) :
    Stays (krylovCycles x r n dx rₖ norm) := by
  induction n generalizing dx rₖ norm with
  | zero => exact .pure _
  | succ n ih =>
    refine .bind (krylovCycle_stays x r rₖ norm) fun (step, out) => ?_
    refine .bind (.lift _) fun dx => .bind .get fun s => ?_
    refine .bind (.lift _) fun tolerance => ?_
    split_ifs
    · exact .pure _
    · exact .bind (ih dx out.residual out.norm) fun _ => .pure _

lemma linearSolve_stays (x r : Tensor α) (norm : α) (index : ℤ) :
    Stays (linearSolve x r norm index) := by
  refine .bind .get fun s => .bind (.lift _) fun restarts => ?_
  refine .bind (krylovCycles_stays x r _ _ r norm) fun (dx, norms) => ?_
  cases s.settings.krylovDirectory with
  | none => exact .pure _
  | some directory => exact .bind (.lift _) fun path => .bind (.report _) fun _ => .pure _

/-! ### One cycle -/

/-- What the cycle of a linear solve comes to in a work space. -/
def cycleIn (s : Solver α) (ws : Workspace α) (x r rₖ : Tensor α) (norm : α) :
    Except Error (Cycle.Outcome α) × Workspace α :=
  (Cycle.run (s.jacobian x r) rₖ norm s.settings.threshold s.settings.krylovTolerance.computed
    ws.capacity).run ws

lemma krylovCycle_eq (x r rₖ : Tensor α) (norm : α) :
    krylovCycle x r rₖ norm = (do
      let ws ← allocatedWorkspace
      let s ← get
      let (result, ws') := s.cycleIn ws x r rₖ norm
      set { s with workspace := some ws' }
      let out ← result
      let u := Tensor.ofVec out.update
      if out.steps = 0 then return (u, out) else return (← s.preconditioner.action u, out)) := rfl

/-- The solver after a cycle. -/
def withWorkspace {α : Type} (s : Solver α) (ws : Workspace α) : Solver α :=
  { s with workspace := some ws }

omit [Scalar α] in
lemma allocatedWorkspace_leads {s : Solver α} {ws : Workspace α}
    {Q : Workspace α → Solver α → Prop} {E : Solver α → Prop} (given : s.workspace = some ws)
    (rest : Q ws s) : Leads allocatedWorkspace s Q E := by
  unfold allocatedWorkspace
  rw [leads_bind, leads_get, given]
  exact rest

section Cycle

variable {s : Solver α} {ws : Workspace α} {x r rₖ : Tensor α} {norm : α}

/-- A cycle that goes through hands on its outcome, and leaves its work space. -/
lemma krylovCycle_ends (given : s.workspace = some ws) :
    Leads (krylovCycle x r rₖ norm) s
      (fun result t => ∃ ws', s.cycleIn ws x r rₖ norm = (.ok result.2, ws') ∧
        t = s.withWorkspace ws') fun _ => True := by
  rw [krylovCycle_eq, leads_bind]
  refine allocatedWorkspace_leads given ?_
  rw [leads_bind, leads_get]
  rcases s.cycleIn ws x r rₖ norm with ⟨e | out, ws'⟩
  · exact trivial
  · dsimp only
    rw [leads_bind, leads_set]
    refine .ok_bind rfl ?_
    split_ifs
    · exact ⟨ws', rfl, rfl⟩
    · exact .lift_bind trivial fun _ _ => ⟨ws', rfl, rfl⟩

/-- A cycle with steps applies the preconditioner to its update. -/
lemma krylovCycle_applies (given : s.workspace = some ws) {out : Cycle.Outcome α}
    {ws' : Workspace α} (run : s.cycleIn ws x r rₖ norm = (.ok out, ws')) (steps : out.steps ≠ 0)
    {step : Tensor α} (applied : s.preconditioner.action (Tensor.ofVec out.update) = .ok step) :
    Leads (krylovCycle x r rₖ norm) s
      (fun result t => result = (step, out) ∧ t = s.withWorkspace ws') fun _ => False := by
  rw [krylovCycle_eq, leads_bind]
  refine allocatedWorkspace_leads given ?_
  rw [leads_bind, leads_get, run]
  dsimp only
  rw [leads_bind, leads_set]
  refine .ok_bind rfl ?_
  rw [if_neg steps]
  exact .ok_bind applied ⟨rfl, rfl⟩

end Cycle

/-! ### The shape of a step -/

omit [Scalar α] in
lemma shape_of_update {f : α → γ → α} {y z : Tensor α} {w : Tensor γ}
    (updated : y.update f w = .ok z) : z.shape = y.shape := by
  obtain ⟨u, -, updated⟩ := bind_eq_ok.mp updated
  split_ifs at updated with same
  · cases updated
    exact same

/-- Steps are summed up in place, so the sum has the shape of the zero that it starts from. -/
lemma krylovCycles_shape (x r : Tensor α) (n : ℕ) (dx rₖ : Tensor α) (norm : α) (s : Solver α) :
    Leads (krylovCycles x r n dx rₖ norm) s (fun out _ => out.1.shape = dx.shape)
      fun _ => True := by
  -- The induction is on the cycles that are left; the shape is that of the sum so far.
  induction n generalizing dx rₖ norm s with
  | zero => exact rfl
  | succ n ih =>
    have anything (s : Solver α) :
        Leads (krylovCycle x r rₖ norm) s (fun _ _ => True) fun _ => True :=
      (krylovCycle_stays x r rₖ norm s).mono (fun _ _ _ => trivial) fun _ _ => trivial
    refine (anything s).bind fun (step, out) t _ => ?_
    refine .lift_bind trivial fun sum summed => ?_
    have shape : sum.shape = dx.shape := shape_of_update summed
    rw [leads_bind, leads_get]
    refine .lift_bind trivial fun tolerance _ => ?_
    split_ifs
    · exact shape
    · exact (ih sum out.residual out.norm t).bind fun _ _ rest => rest.trans shape

lemma linearSolve_shape (x r : Tensor α) (norm : α) (index : ℤ) (s : Solver α) :
    Leads (linearSolve x r norm index) s (fun out _ => out.1.shape = x.shape) fun _ => True := by
  unfold linearSolve
  rw [leads_bind, leads_get]
  refine .lift_bind trivial fun restarts _ => ?_
  refine (krylovCycles_shape x r _ _ r norm s).bind ?_
  rintro ⟨dx, norms⟩ t shape
  cases s.settings.krylovDirectory with
  | none => exact shape
  | some directory => exact .lift_bind trivial fun path _ => (leads_bind _ _).mpr shape

end Solver

namespace Solver

variable {α : Type} [CheckedScalar α]

/-- A solver `s` proposes the step `dx` from `x`: the guard makes it of what the linear solve comes
to. The residual norm after it is `fullNorm`. -/
structure Proposes (F : NonlinearSystem α) (s : Solver α) (x r : Tensor α) (norm : α) (index : ℤ)
    (dx : Tensor α) (fullNorm : α) : Prop where
  guarded : ∃ proposed norms t, (linearSolve x r norm index).run s = (.ok (proposed, norms), t) ∧
    F.guard.step x proposed = .ok dx
  value : normAfter F x dx = .ok fullNorm

/-- What the line search along a step comes to. -/
def searchAlong (F : NonlinearSystem α) (settings : Settings α) (x dx : Tensor α)
    (norm fullNorm : α) : Except Error (LineSearch.Outcome α) :=
  LineSearch.searchWithin (fun c => normAfter F x (dx.smul c)) norm fullNorm
    settings.searchTolerance settings.searchSteps

/-- The norm that a line search returns is the norm after the step of that scale. -/
lemma normAfter_of_searchAlong {F : NonlinearSystem α} {settings : Settings α} {x dx : Tensor α}
    {norm fullNorm : α} {out : LineSearch.Outcome α}
    (search : searchAlong F settings x dx norm fullNorm = .ok out) :
    normAfter F x (dx.smul out.last.scale) = .ok out.last.norm :=
  LineSearch.search_last (LineSearch.search_of_searchWithin search)

/-- What becomes of a proposed step: it is taken as it is, the line search shrinks it, or it is
rejected. -/
inductive Settled (F : NonlinearSystem α) (settings : Settings α) (x dx : Tensor α)
    (norm fullNorm : α) : StepOutcome α → Prop
  | full {y : Tensor α} {size : α} {linearSteps : ℕ} (le : fullNorm ≤ norm)
      (moved : Tensor.combine (· - ·) x dx = .ok y) (largest : dx.maxNorm = .ok size) :
      Settled F settings x dx norm fullNorm ⟨some y, fullNorm, size, linearSteps, 0⟩
  | searched {y : Tensor α} {size : α} {out : LineSearch.Outcome α} {linearSteps : ℕ}
      (increased : ¬ fullNorm ≤ norm) (search : searchAlong F settings x dx norm fullNorm = .ok out)
      (lt : out.last.norm < norm) (positive : 0 < out.last.scale)
      (moved : Tensor.combine (· - ·) x (dx.smul out.last.scale) = .ok y)
      (largest : (dx.smul out.last.scale).maxNorm = .ok size) :
      Settled F settings x dx norm fullNorm
        ⟨some y, out.last.norm, size, linearSteps, out.trials.length⟩
  | rejected {out : LineSearch.Outcome α} {linearSteps : ℕ} (increased : ¬ fullNorm ≤ norm)
      (search : searchAlong F settings x dx norm fullNorm = .ok out)
      (fails : ¬ (out.last.norm < norm ∧ 0 < out.last.scale)) :
      Settled F settings x dx norm fullNorm ⟨none, norm, 0, linearSteps, out.trials.length⟩

/-- What looking for a step from `x`, where the residual norm is `norm`, can come to. -/
def Attempted (F : NonlinearSystem α) (settings : Settings α) (x : Tensor α) (norm : α)
    (out : StepOutcome α) : Prop :=
  ∃ proposed dx fullNorm, proposed.shape = x.shape ∧ F.guard.step x proposed = .ok dx ∧
    normAfter F x dx = .ok fullNorm ∧ Settled F settings x dx norm fullNorm out

lemma boundSystem_run {α : Type} {F : NonlinearSystem α} {s : Solver α}
    (bound : s.system = some F) : (boundSystem : SolverM α _).run s = (.ok F, s) := by
  unfold boundSystem
  rw [run_get_bind, bound]
  rfl

/-- If the line search along a step fails, no step is found. -/
lemma newtonStep_run_of_searchAlong {F : NonlinearSystem α} {s t : Solver α}
    {x r proposed dx : Tensor α} {norm fullNorm : α} {index : ℤ} {norms : List α} {e : Error}
    (solved : (linearSolve x r norm index).run s = (.ok (proposed, norms), t))
    (bound : t.system = some F) (guarded : F.guard.step x proposed = .ok dx)
    (value : normAfter F x dx = .ok fullNorm) (increased : ¬ fullNorm ≤ norm)
    (fails : searchAlong F t.settings x dx norm fullNorm = .error e) :
    (newtonStep x r norm index).run s = (.error e, t) := by
  unfold newtonStep
  rw [run_bind_of_ok solved]
  dsimp only
  rw [run_bind_of_ok (boundSystem_run bound), run_lift_bind guarded, run_lift_bind value,
    if_neg increased, run_get_bind]
  exact run_lift_bind_of_error fails _ t

/-- Looking for a step proposes one and settles what becomes of it. -/
lemma newtonStep_settles {F : NonlinearSystem α} {s : Solver α} (bound : s.system = some F)
    (x r : Tensor α) (norm : α) (index : ℤ) :
    Leads (newtonStep x r norm index) s
      (fun out t => Keeps s t ∧ ∃ dx fullNorm, Proposes F s x r norm index dx fullNorm ∧
        Settled F s.settings x dx norm fullNorm out) (Keeps s) := by
  unfold newtonStep
  refine ((linearSolve_stays x r norm index s).and (leads_run _)).bind ?_
  rintro ⟨proposed, norms⟩ t ⟨kept, solved⟩
  rw [boundSystem, leads_bind, leads_bind, leads_get, kept.system.trans bound, leads_pure]
  refine .lift_bind kept fun dx guarded => .lift_bind kept fun fullNorm value => ?_
  have proposes : Proposes F s x r norm index dx fullNorm := ⟨⟨_, _, t, solved, guarded⟩, value⟩
  split_ifs with le
  · refine .lift_bind kept fun y moved => .lift_bind kept fun size largest => ?_
    exact ⟨kept, dx, fullNorm, proposes, .full le moved largest⟩
  · rw [leads_bind, leads_get, kept.settings]
    refine .lift_bind kept fun out search => ?_
    -- The search may be reported, which changes nothing in what is decided.
    extract_lets decide
    have decided (u : Solver α) (kept : Keeps s u) : Leads (decide ()) u
        (fun out t => Keeps s t ∧ ∃ dx fullNorm, Proposes F s x r norm index dx fullNorm ∧
          Settled F s.settings x dx norm fullNorm out) (Keeps s) := by
      unfold decide
      split_ifs with accepted
      · refine .lift_bind kept fun y moved => .lift_bind kept fun size largest => ?_
        exact ⟨kept, dx, fullNorm, proposes,
          .searched le search accepted.1 accepted.2 moved largest⟩
      · exact ⟨kept, dx, fullNorm, proposes, .rejected le search accepted⟩
    split
    · refine .lift_bind kept fun path _ => ?_
      exact (leads_bind _ _).mpr (decided _ (kept.trans (Stays.report _ t)))
    · exact decided t kept

lemma newtonStep_leads {F : NonlinearSystem α} {s : Solver α} (bound : s.system = some F)
    (x r : Tensor α) (norm : α) (index : ℤ) :
    Leads (newtonStep x r norm index) s
      (fun out t => Attempted F s.settings x norm out ∧ Keeps s t) (Keeps s) := by
  refine (newtonStep_settles bound x r norm index).mono ?_ fun _ => id
  rintro out t ⟨kept, dx, fullNorm, ⟨⟨proposed, norms, u, solved, guarded⟩, value⟩, settled⟩
  -- The proposal has the shape of the state, since the linear solve sums up in place.
  have shape := (linearSolve_shape x r norm index s).result solved
  exact ⟨⟨proposed, dx, fullNorm, shape, guarded, value, settled⟩, kept⟩

end Solver

end NewtonKrylov
