import NewtonKrylov.Proofs.LineSearch.Endless
import NewtonKrylov.Proofs.Newton.SameRuns

/-!
# Runs whose line searches have no limit

A line search without a limit is run with a patience, and is given up for a cause when this is used
up. A computation `Settles` if it comes to the same for every patience that is large enough and
every cause: this is what it comes to when its searches may take any number of steps.

A pass settles if the line search in it ends, and so does a run of any number of passes if all its
line searches end. Which ones there are depends on the searches before them, so the patience that is
enough is found pass by pass.

Nothing here depends on the arithmetic.
-/

namespace NewtonKrylov

lemma Limit.patient_patient (k k' : ℕ) (cause cause' : Error) (l : Limit) :
    (l.patient k cause).patient k' cause' = l.patient k' cause' := by
  cases l <;> rfl

namespace Solver

/-! ### Another patience -/

section Patient

variable {α β γ : Type}

/-- The solver with another patience for line searches that have no limit, and another cause for
which they are given up. -/
def patient (s : Solver α) (k : ℕ) (cause : Error) : Solver α :=
  { s with settings := s.settings.limitSearches (Except.map (Limit.patient k cause)) }

/-- There is a limit for the steps of a line search. -/
def LimitsSearches (s : Solver α) : Prop :=
  ∀ patience cause, s.settings.searchSteps ≠ .ok (.endless patience cause)

variable {s t : Solver α} {k k' : ℕ} {cause cause' : Error}

lemma LimitsSearches.patient_eq (limited : s.LimitsSearches) (k : ℕ) (cause : Error) :
    s.patient k cause = s := by
  have same : s.settings.searchSteps.map (Limit.patient k cause) = s.settings.searchSteps := by
    match given : s.settings.searchSteps with
    | .error e => rfl
    | .ok (.count n) => rfl
    | .ok (.endless p e) => exact absurd given (limited p e)
  rw [patient, Settings.limitSearches, same]

@[simp] lemma patient_patient : (s.patient k cause).patient k' cause' = s.patient k' cause' := by
  have same : (s.settings.searchSteps.map (Limit.patient k cause)).map (Limit.patient k' cause')
      = s.settings.searchSteps.map (Limit.patient k' cause') := by
    cases s.settings.searchSteps with
    | error e => rfl
    | ok l => exact congrArg Except.ok (l.patient_patient k k' cause cause')
  unfold patient Settings.limitSearches
  rw [same]

/-- The solver `t` is `s` with another patience. -/
def IsPatient (k : ℕ) (cause : Error) (s t : Solver α) : Prop := t = s.patient k cause

lemma afterHook_patient (point : HookPoint) (x : Tensor α) :
    (s.patient k cause).afterHook point x = (s.afterHook point x).patient k cause := by
  have hooks : (s.patient k cause).settings.hooks point = s.settings.hooks point := rfl
  unfold afterHook
  rw [hooks]
  cases s.settings.hooks point <;> rfl

lemma beforeStep_patient (x : Tensor α) :
    (s.patient k cause).beforeStep x = (s.beforeStep x).patient k cause := by
  rw [beforeStep, afterHook_patient]
  rfl

/-- The patience makes no difference but to line searches. -/
lemma makesSameRuns_patient [Scalar α] (k : ℕ) (cause : Error) :
    MakesSameRuns (IsPatient (α := α) k cause) (Except.map (Limit.patient k cause)) where
  restarts := by rintro s _ rfl; rfl
  tolerance := by rintro s _ rfl; rfl
  directory := by rintro s _ rfl; rfl
  action := by rintro s _ rfl; rfl
  unallocated := by
    rintro s _ rfl none
    exact none
  cycle := by
    rintro s _ ws x r rₖ norm rfl given
    exact ⟨ws, given, rfl, fun _ _ => rfl⟩
  report := by rintro s _ f rfl; rfl
  settings := by rintro s _ rfl; rfl
  system := by rintro s _ rfl; rfl
  preconditioner := by rintro s _ rfl; rfl
  log := by rintro s _ rfl; rfl
  answer := by rintro s _ point x rfl; rfl
  afterHook := by
    rintro s _ point x rfl
    exact afterHook_patient point x
  logged := by rintro s _ e rfl; rfl
  rebuilt := by rintro s _ p rfl - -; rfl

end Patient

/-! ### Computations that settle -/

section Settles

variable {α β γ : Type} {s : Solver α}

/-- With enough patience the computation comes to the same, whatever the patience and whatever a
search would be given up for. -/
def Settles (m : SolverM α β) (s : Solver α) : Prop :=
  ∃ (n : ℕ) (r : Except Error β) (u : Solver α), ∀ k, n ≤ k → ∀ cause,
    m.run (s.patient k cause) = (r, u.patient k cause)

namespace Settles

/-- It is enough to compare with one patience. -/
lemma of_matches {m : SolverM α β} (n : ℕ) (same : ∀ k, n ≤ k → ∀ cause,
    Matches (IsPatient k cause) m m (s.patient n .notSet) (s.patient k cause)) : Settles m s := by
  refine ⟨n, (m.run (s.patient n .notSet)).1, (m.run (s.patient n .notSet)).2, fun k le cause => ?_⟩
  obtain ⟨result, left⟩ := same k le cause
  exact Prod.ext result.symm left

/-- What cannot tell solvers of different patience apart settles at once. -/
lemma of_uniform {m : SolverM α β} (uniform : ∀ k cause, Uniform (IsPatient k cause) m) :
    Settles m s :=
  of_matches 0 fun k _ cause => uniform k cause _ _ patient_patient.symm

/-- The second part need settle only where the first one has settled. -/
lemma bind {m : SolverM α γ} {f : γ → SolverM α β} (first : Settles m s)
    (rest : ∀ n c u,
      (∀ k, n ≤ k → ∀ cause, m.run (s.patient k cause) = (.ok c, u.patient k cause)) →
        Settles (f c) u) : Settles (m >>= f) s := by
  obtain ⟨n, r, u, run⟩ := first
  cases r with
  | error e => exact ⟨n, .error e, u, fun k le cause => run_bind_of_error (run k le cause)⟩
  | ok c =>
    obtain ⟨n', r, v, run'⟩ := rest n c u run
    refine ⟨max n n', r, v, fun k le cause => ?_⟩
    rw [run_bind_of_ok (run k (le_of_max_le_left le) cause)]
    exact run' k (le_of_max_le_right le) cause

end Settles

end Settles

/-! ### Searches that end -/

section Searches

variable {α : Type} [CheckedScalar α] {s t : Solver α} {x : Tensor α} {k : ℕ} {it : Iteration α}

/-- In the run from `s` and `x`, whose line searches may take any number of steps if they have no
limit, another pass begins after `k` of them, at this iteration and with this solver. -/
def ReachesPass (s : Solver α) (x : Tensor α) (k : ℕ) (it : Iteration α) (t : Solver α) : Prop :=
  ∃ patience cause, BeginsPass (s.patient patience cause) x k it t

/-- If line searches have no limit, each of those in the run from `s` and `x` ends all the same. -/
def SearchesEnd (s : Solver α) (x : Tensor α) : Prop :=
  ∀ patience cause, s.settings.searchSteps = .ok (.endless patience cause) →
    ∀ k it t F r dx fullNorm, s.ReachesPass x k it t → BeginsSearch F it t r dx fullNorm →
      ∃ result, LineSearch.Unlimited (fun c => normAfter F it.state (dx.smul c)) r.norm
        s.settings.searchTolerance fullNorm result

lemma LimitsSearches.searchesEnd (limited : s.LimitsSearches) (x : Tensor α) : s.SearchesEnd x :=
  fun patience cause given => absurd given (limited patience cause)

/-- Which step is proposed does not depend on the patience. -/
lemma proposes_patient {F : NonlinearSystem α} {r dx : Tensor α} {norm fullNorm : α} {index : ℤ}
    {cause : Error} : Proposes F (s.patient k cause) x r norm index dx fullNorm
      ↔ Proposes F s x r norm index dx fullNorm := by
  have same : ((linearSolve x r norm index).run s).1
      = ((linearSolve x r norm index).run (s.patient k cause)).1 :=
    ((makesSameRuns_patient k cause).linearSolve x r norm index rfl).1
  constructor
  · rintro ⟨⟨proposed, norms, u, solved, guarded⟩, value⟩
    refine ⟨⟨proposed, norms, _, Prod.ext ?_ rfl, guarded⟩, value⟩
    rw [same, solved]
  · rintro ⟨⟨proposed, norms, u, solved, guarded⟩, value⟩
    refine ⟨⟨proposed, norms, _, Prod.ext ?_ rfl, guarded⟩, value⟩
    rw [← same, solved]

lemma beginsSearch_patient {F : NonlinearSystem α} {r dx : Tensor α} {fullNorm : α}
    {cause : Error} : BeginsSearch F it (t.patient k cause) r dx fullNorm
      ↔ BeginsSearch F it t r dx fullNorm := by
  constructor
  · rintro ⟨system, answer, value, proposes, increased⟩
    rw [beforeStep_patient] at proposes
    exact ⟨system, answer, value, proposes_patient.mp proposes, increased⟩
  · rintro ⟨system, answer, value, proposes, increased⟩
    refine ⟨system, answer, value, ?_, increased⟩
    rw [beforeStep_patient]
    exact proposes_patient.mpr proposes

/-- With enough patience a search that ends by itself has one result. -/
lemma SearchesEnd.exists_searchAlong_eq (ends : s.SearchesEnd x) (reached : s.ReachesPass x k it t)
    (settings : ∀ k cause, (t.patient k cause).settings = (s.patient k cause).settings)
    {F : NonlinearSystem α} {r dx : Tensor α} {fullNorm : α}
    (begins : BeginsSearch F it t r dx fullNorm) :
    ∃ n result, ∀ k, n ≤ k → ∀ cause,
      searchAlong F (t.patient k cause).settings it.state dx r.norm fullNorm = result := by
  simp only [settings]
  by_cases limited : s.LimitsSearches
  · exact ⟨0, _, fun k _ cause => by rw [limited.patient_eq]⟩
  · obtain ⟨patience, cause, given⟩ : ∃ patience cause,
        s.settings.searchSteps = .ok (.endless patience cause) := by
      simpa [LimitsSearches] using limited
    obtain ⟨result, run⟩ := ends patience cause given k it t F r dx fullNorm reached begins
    obtain ⟨n, same⟩ := LineSearch.unlimited_iff.mp run
    refine ⟨n, result, fun k le cause => ?_⟩
    rw [← same k le cause, searchAlong, patient, Settings.limitSearches, given]
    rfl

/-- A pass settles if the search in it does. -/
lemma settles_pass (settles : ∀ F r dx fullNorm, BeginsSearch F it t r dx fullNorm →
    ∃ n result, ∀ k, n ≤ k → ∀ cause,
      searchAlong F (t.patient k cause).settings it.state dx r.norm fullNorm = result) :
    Settles (pass it) t := by
  by_cases begins : ∃ F r dx fullNorm, BeginsSearch F it t r dx fullNorm
  · obtain ⟨F, r, dx, fullNorm, begins⟩ := begins
    obtain ⟨n, result, same⟩ := settles F r dx fullNorm begins
    refine .of_matches n fun k le cause => (makesSameRuns_patient k cause).pass
      patient_patient.symm fun F' r' dx' fullNorm' begins' => ?_
    obtain ⟨rfl, rfl, rfl, rfl⟩ := begins.unique (beginsSearch_patient.mp begins')
    rw [same n le_rfl]
    change searchAlong F ((t.patient n .notSet).patient k cause).settings _ _ _ _ = _
    rw [patient_patient, same k le]
  · refine .of_matches 0 fun k _ cause => (makesSameRuns_patient k cause).pass
      patient_patient.symm fun F r dx fullNorm begins' => ?_
    exact absurd ⟨F, r, dx, fullNorm, beginsSearch_patient.mp begins'⟩ begins

end Searches

/-! ### Runs that settle -/

section Runs

variable {α : Type} [CheckedScalar α] {F : NonlinearSystem α} {s t : Solver α} {x : Tensor α}

/-- The run from a state, with at most `N` passes. -/
def runWithin (N : ℕ) (x : Tensor α) : SolverM α (Solution α) := do
  let o ← prepare x
  let last ← if o.begins then passes N o.start else pure o.start
  conclude o.norm last

lemma runWithin_run_of_prepared {o : Outset α} (prepared : (prepare x).run s = (.ok o, t))
    (N : ℕ) : (runWithin N x).run s = (do
      let last ← if o.begins then passes N o.start else pure o.start
      conclude o.norm last : SolverM α (Solution α)).run t :=
  run_bind_of_ok prepared

/-- Where there is a limit for the steps, a run has room for so many passes and some more. -/
lemma solve_run_eq_runWithin {limit : ℤ} (bound : s.system = some F)
    (max : s.settings.maxIterations = .ok (.count limit)) (x : Tensor α) :
    (solve x).run s = (runWithin (limit.toNat + s.settings.extraPasses) x).run s := by
  rcases prepared : (prepare x).run s with ⟨e | o, t⟩
  · rw [solve_eq, runWithin, run_bind_of_error prepared, run_bind_of_error prepared]
  · obtain ⟨-, max', room⟩ := (prepare_leads bound x).result prepared
    rw [max, Except.ok.injEq] at max'
    rw [← max', Limit.room_count] at room
    rw [solve_run_of_prepared prepared, runWithin_run_of_prepared prepared, room]

/-- The solver of a pass is for the same problem. -/
lemma ReachesPass.settings_patient (bound : s.system = some F) {k : ℕ} {it : Iteration α}
    (reached : s.ReachesPass x k it t) (p : ℕ) (cause : Error) :
    (t.patient p cause).settings = (s.patient p cause).settings := by
  obtain ⟨p', cause', begins⟩ := reached
  have settings : t.settings = (s.patient p' cause').settings :=
    (BeginsPass.kept (s := s.patient p' cause') bound begins).2
  calc (t.patient p cause).settings
      = ((s.patient p' cause').patient p cause).settings := by rw [patient, settings]; rfl
    _ = (s.patient p cause).settings := by rw [patient_patient]

omit [CheckedScalar α] in
lemma uniform_allocate (n : ℤ) (k : ℕ) (cause : Error) :
    Uniform (IsPatient k cause) (allocate n : SolverM α Bool) := by
  intro s t related
  have steps : t.settings.krylovSteps = s.settings.krylovSteps := by rw [related]; rfl
  have workspace : t.workspace = s.workspace := by rw [related]; rfl
  refine .get_bind ?_
  rw [steps]
  refine .lift_bind related fun limit _ => ?_
  rw [workspace]
  extract_lets
  split_ifs
  · exact .pure related _
  · refine .lift_bind related fun size _ => .lift_bind related fun ws _ => .set_bind ?_
    exact .pure (by rw [related]; rfl) _

lemma settles_prepare (x : Tensor α) : Settles (prepare x) s := by
  refine .of_uniform fun k cause => ?_
  have same := makesSameRuns_patient (α := α) k cause
  rw [← bind_pure (prepare x), prepare_bind]
  rintro s _ rfl
  refine .modify_bind (.get_bind ?_)
  change Matches _ (if s.system.isNone = true then _ else _)
    (if s.system.isNone = true then _ else _) _ _
  have related : IsPatient k cause { s with log := [] } { s.patient k cause with log := [] } := rfl
  split_ifs
  · exact .throw related _
  · refine Uniform.bind (.lift _) (fun v => .bind (uniform_allocate _ k cause) fun _ => ?_) _ _
      related
    exact .bind (same.outset v) fun o => .pure o

/-- Passes settle if every line search ends. -/
lemma SearchesEnd.settles_passes (ends : s.SearchesEnd x) (bound : s.system = some F) {n k : ℕ}
    {it : Iteration α}
    (reached : ∀ p, n ≤ p → ∀ cause, BeginsPass (s.patient p cause) x k it (t.patient p cause))
    (N : ℕ) : Settles (passes N it) t := by
  -- The induction is on the passes that are left. Each pass may ask for more patience.
  induction N generalizing n k it t with
  | zero => exact ⟨0, .error .passLimit, t, fun _ _ _ => rfl⟩
  | succ N ih =>
    have here : s.ReachesPass x k it (t.patient n .notSet) := ⟨n, .notSet, reached n le_rfl .notSet⟩
    refine .bind (settles_pass fun F r dx fullNorm begins => ?_) fun n' (it', again) u run => ?_
    · have settled := ends.exists_searchAlong_eq here (here.settings_patient bound)
        (beginsSearch_patient.mpr begins)
      simpa only [patient_patient] using settled
    · cases again with
      | false => exact ⟨0, .ok it', u, fun _ _ _ => rfl⟩
      | true =>
        refine ih (n := max n n') (k := k + 1) fun p le cause => ?_
        exact (reached p (le_of_max_le_left le) cause).next (run p (le_of_max_le_right le) cause)

/-- A run settles if every line search in it ends. -/
theorem SearchesEnd.settles_runWithin (ends : s.SearchesEnd x) (bound : s.system = some F)
    (N : ℕ) : Settles (runWithin N x) s := by
  refine .bind (settles_prepare x) fun n o t prepared => ?_
  have concludes (last : Iteration α) (u : Solver α) : Settles (conclude o.norm last) u :=
    .of_uniform fun k cause => (makesSameRuns_patient k cause).conclude o.norm last
  split_ifs with begins
  · have started (p : ℕ) (le : n ≤ p) (cause : Error) :
        BeginsPass (s.patient p cause) x 0 o.start (t.patient p cause) :=
      .start (prepared p le cause) begins
    exact .bind (ends.settles_passes bound started N) fun _ last u _ => concludes last u
  · exact concludes o.start t

end Runs

end Solver

end NewtonKrylov
