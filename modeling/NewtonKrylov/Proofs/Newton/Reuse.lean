import NewtonKrylov.Proofs.Krylov.Run
import NewtonKrylov.Proofs.Newton.Indifference
import NewtonKrylov.Proofs.Newton.SameRuns
import NewtonKrylov.Proofs.Newton.Statistics

/-!
# Solvers that are used again

A solver keeps a work space, an action of its preconditioner, the numbers of calls of its hooks and
its reports from one run to the next, also from a run that has failed half way. None of this can be
seen in the next run if the hooks do not count their calls. Two solvers are `Twins` if they differ
only in what a run does not read before it has written it. They make the same runs.

Nothing here depends on the arithmetic.
-/

namespace NewtonKrylov

/-- Hooks that do not count their calls. -/
def Settings.PureHooks {α : Type} (settings : Settings α) : Prop :=
  ∀ point hook, settings.hooks point = some (.ok hook) → ∀ m n x, hook m x = hook n x

namespace Solver

/-! ### Solvers for one problem -/

section Twins

variable {α : Type}

/-- Solvers for the same problem, whatever has become of each of them. -/
structure SameProblem (s t : Solver α) : Prop where
  settings : t.settings = s.settings
  system : t.system = s.system
  start : t.preconditioner.start = s.preconditioner.start
  refresh : t.preconditioner.refresh = s.preconditioner.refresh

/-- What is left of a solver without the calls of its hooks, its reports, and the contents of its
work space. -/
def forget (s : Solver α) : Solver α :=
  { s with
    workspace := s.workspace.map Workspace.reset
    calls := fun _ => 0
    files := [] }

/-- The work space that is created for problems of dimension `n`. -/
def newWorkspace (s : Solver α) (n : ℤ) : Except Error (Workspace α) := do
  let limit ← s.settings.krylovSteps.getD (.ok (.count n))
  Workspace.create n (← (limit.atMost n).size)

/-- The work space, if there is one, is like the one that would be created in its place. -/
def Allocated (s : Solver α) : Prop :=
  ∀ ws, s.workspace = some ws → s.newWorkspace ws.dimension = .ok ws.reset

/-- A solver for the problem of `b` between two runs. -/
structure Reusable (b s : Solver α) : Prop where
  problem : SameProblem b s
  allocated : s.Allocated

lemma Reusable.of_eq {b s t : Solver α} (reusable : Reusable b s)
    (settings : t.settings = s.settings) (system : t.system = s.system)
    (start : t.preconditioner.start = s.preconditioner.start)
    (refresh : t.preconditioner.refresh = s.preconditioner.refresh)
    (workspace : t.workspace = s.workspace) : Reusable b t where
  problem := by
    obtain ⟨⟨settings', system', start', refresh'⟩, -⟩ := reusable
    exact ⟨settings.trans settings', system.trans system', start.trans start',
      refresh.trans refresh'⟩
  allocated := by
    have allocated := reusable.allocated
    unfold Allocated newWorkspace at allocated ⊢
    rwa [settings, workspace]

/-- Two solvers for the problem of `b` that the parts of a run cannot tell apart. -/
structure Twins (b s t : Solver α) : Prop where
  reusable : Reusable b s
  forget : t.forget = s.forget

namespace Twins

variable {b s t : Solver α} (twins : Twins b s t)
include twins

lemma settings : t.settings = s.settings :=
  show t.forget.settings = s.forget.settings by rw [twins.forget]

lemma system : t.system = s.system :=
  show t.forget.system = s.forget.system by rw [twins.forget]

lemma preconditioner : t.preconditioner = s.preconditioner :=
  show t.forget.preconditioner = s.forget.preconditioner by rw [twins.forget]

lemma log : t.log = s.log :=
  show t.forget.log = s.forget.log by rw [twins.forget]

lemma workspace : t.workspace.map Workspace.reset = s.workspace.map Workspace.reset :=
  show t.forget.workspace = s.forget.workspace by rw [twins.forget]

lemma logged (e : Event α) : Twins b (s.logged e) (t.logged e) where
  reusable := twins.reusable.of_eq rfl rfl rfl rfl rfl
  forget := congrArg (Solver.logged · e) twins.forget

lemma reported (f g : ReportFiles α → ReportFiles α) :
    Twins b { s with files := f s.files } { t with files := g t.files } where
  reusable := twins.reusable.of_eq rfl rfl rfl rfl rfl
  forget := twins.forget

lemma hookAnswer (pure : b.settings.PureHooks) (point : HookPoint) (x : Tensor α) :
    t.hookAnswer point x = s.hookAnswer point x := by
  unfold Solver.hookAnswer
  rw [twins.settings]
  match given : s.settings.hooks point with
  | none => rfl
  | some (.error e) => rfl
  | some (.ok hook) =>
    exact congrArg Except.ok (pure point hook (twins.reusable.problem.settings ▸ given) _ _ x)

lemma afterHook (point : HookPoint) (x : Tensor α) :
    Twins b (s.afterHook point x) (t.afterHook point x) := by
  have same : t.settings.hooks point = s.settings.hooks point := by rw [twins.settings]
  unfold Solver.afterHook
  rw [same]
  cases s.settings.hooks point with
  | none => exact twins
  | some hook =>
    refine ⟨twins.reusable.of_eq rfl rfl rfl rfl rfl, ?_⟩
    exact congrArg (Solver.logged · (.hook point x)) twins.forget

/-- A preconditioner that is built anew in both is built in the same way the next time. -/
lemma rebuilt {p : Preconditioner α} (start : p.start = s.preconditioner.start)
    (refresh : p.refresh = s.preconditioner.refresh) :
    Twins b { s with preconditioner := p } { t with preconditioner := p } where
  reusable := twins.reusable.of_eq rfl rfl start refresh rfl
  forget := congrArg (fun u : Solver α => { u with preconditioner := p }) twins.forget

/-- The work spaces of both are used for the same dimension and as many steps. -/
lemma withWorkspace {ws ws' used used' : Workspace α} (given : s.workspace = some ws)
    (same : ws'.reset = ws.reset) (keeps : used.reset = ws.reset)
    (keeps' : used'.reset = ws'.reset) :
    Twins b (s.withWorkspace used) (t.withWorkspace used') where
  reusable := by
    have problem := twins.reusable.problem
    refine ⟨⟨problem.settings, problem.system, problem.start, problem.refresh⟩, ?_⟩
    rintro _ ⟨⟩
    have dimension : used.dimension = ws.dimension :=
      show used.reset.dimension = ws.reset.dimension by rw [keeps]
    -- What would be created depends on the settings and the dimension, which the cycle keeps.
    have creates := twins.reusable.allocated ws given
    rw [← keeps, ← dimension] at creates
    exact creates
  forget := by
    have both : used'.reset = used.reset := keeps'.trans (same.trans keeps.symm)
    have others :=
      congrArg (fun u : Solver α => { u with workspace := some used.reset }) twins.forget
    simpa only [Solver.forget, Solver.withWorkspace, Option.map_some, both] using others

end Twins

end Twins

/-! ### Runs of twins -/

section Step

variable {α : Type} [Scalar α] {b s t : Solver α}

lemma reset_cycleIn (ws : Workspace α) (x r rₖ : Tensor α) (norm : α) :
    (s.cycleIn ws x r rₖ norm).2.reset = ws.reset :=
  (Cycle.run_keepsSize _ _ _ _ _ _ ws).state

lemma Twins.cycleIn_eq (twins : Twins b s t) {ws ws' : Workspace α} (same : ws'.reset = ws.reset)
    (x r rₖ : Tensor α) (norm : α) : t.cycleIn ws' x r rₖ norm = s.cycleIn ws x r rₖ norm := by
  have jacobian : t.jacobian x r = s.jacobian x r := by
    unfold Solver.jacobian
    rw [twins.settings, twins.system, twins.preconditioner]
  have capacity : ws'.capacity = ws.capacity :=
    show ws'.reset.capacity = ws.reset.capacity by rw [same]
  -- A cycle reads nothing of its work space but the size.
  unfold Solver.cycleIn
  rw [jacobian, capacity, twins.settings, Cycle.run_congr same]

/-- Twins take the same cycle, whatever their work spaces hold before it. -/
lemma takesSameCycles_twins (b : Solver α) : TakesSameCycles (Twins b) where
  restarts twins := by rw [twins.settings]
  tolerance twins := by rw [twins.settings]
  directory twins := by rw [twins.settings]
  action twins := by rw [twins.preconditioner]
  unallocated twins none := by
    have spaces := twins.workspace
    rwa [none, Option.map_none, Option.map_eq_none_iff] at spaces
  cycle {s t ws} x r rₖ norm twins given := by
    have spaces := twins.workspace
    rw [given, Option.map_some] at spaces
    obtain ⟨ws', given', same⟩ := Option.map_eq_some_iff.mp spaces
    refine ⟨ws', given', twins.cycleIn_eq same x r rₖ norm, ?_⟩
    rintro used rfl
    have keeps := reset_cycleIn (s := s) ws x r rₖ norm
    exact twins.withWorkspace given same keeps (keeps.trans same.symm)
  report f twins := twins.reported f f

/-- Twins make the same runs if the hooks do not count their calls. -/
lemma makesSameRuns_twins (pure : b.settings.PureHooks) : MakesSameRuns (Twins b) id where
  toTakesSameCycles := takesSameCycles_twins b
  settings twins := twins.settings
  system twins := twins.system
  preconditioner twins := twins.preconditioner
  log twins := twins.log
  answer point x twins := twins.hookAnswer pure point x
  afterHook point x twins := twins.afterHook point x
  logged e twins := twins.logged e
  rebuilt twins start refresh := twins.rebuilt start refresh

end Step

section Run

variable {α : Type} [CheckedScalar α] {b : Solver α} (pure : b.settings.PureHooks)
include pure

lemma uniform_passes (n : ℕ) (it : Iteration α) : Uniform (Twins b) (passes n it) := by
  -- The induction is on the passes that are left. Line searches have the same limit in each.
  induction n generalizing it with
  | zero => exact .throw _
  | succ n ih =>
    have uniform_pass : Uniform (Twins b) (pass it) := fun s t twins =>
      (makesSameRuns_twins pure).pass twins fun _ _ _ _ _ => rfl
    refine .bind uniform_pass fun (next, again) => ?_
    cases again with
    | true => exact ih next
    | false => exact .pure next

end Run

/-! ### Work spaces -/

section Allocate

variable {α β : Type} {b s t : Solver α}

/-- A work space that is kept is like the one that would be created. -/
lemma allocate_run (allocated : s.Allocated) (n : ℤ) :
    match s.newWorkspace n with
    | .ok ws => ∃ kept used, (allocate n).run s = (.ok kept, s.withWorkspace used) ∧ used.reset = ws
    | .error e => (allocate n).run s = (.error e, s) := by
  unfold allocate
  rw [run_get_bind]
  cases given : s.settings.krylovSteps.getD (.ok (.count n)) with
  | error e =>
    have wanted : s.newWorkspace n = .error e := by
      rw [newWorkspace, given]
      rfl
    rw [wanted]
    exact run_lift_bind_of_error rfl _ s
  | ok limit =>
    have wanted : s.newWorkspace n = (limit.atMost n).size >>= Workspace.create n := by
      rw [newWorkspace, given, ok_bind]
    rw [run_lift_bind rfl]
    extract_lets steps fits
    split_ifs with kept
    · -- The work space that is there fits, and stays with what is in it.
      obtain ⟨ws, present, same⟩ := (Option.any_eq_true _ _).mp kept
      obtain rfl : (ws.dimension : ℤ) = n := of_decide_eq_true (Bool.and_eq_true_iff.mp same).1
      rw [allocated ws present]
      refine ⟨true, ws, ?_, rfl⟩
      rw [withWorkspace, ← present]
      rfl
    · rw [wanted]
      cases steps.size with
      | error e => exact run_lift_bind_of_error rfl _ s
      | ok size =>
        rw [ok_bind, run_lift_bind rfl]
        cases made : Workspace.create n size with
        | error e => exact run_lift_bind_of_error rfl _ s
        | ok ws =>
          -- A new one holds nothing that could be forgotten.
          obtain ⟨-, -, rfl⟩ := (Workspace.create_eq_ok_iff _ _ _).mp made
          exact ⟨false, _, rfl, rfl⟩

lemma dimension_of_newWorkspace {n : ℕ} {ws : Workspace α} (wanted : s.newWorkspace n = .ok ws) :
    ws.dimension = n := by
  obtain ⟨limit, -, created⟩ := bind_eq_ok.mp wanted
  obtain ⟨size, -, created⟩ := bind_eq_ok.mp created
  obtain ⟨-, -, rfl⟩ := (Workspace.create_eq_ok_iff _ _ _).mp created
  rfl

/-- Two solvers for the problem of `b` with the same preconditioner, before they have allocated a
work space. -/
structure Abreast (b s t : Solver α) : Prop where
  left : Reusable b s
  right : Reusable b t
  preconditioner : t.preconditioner = s.preconditioner

/-- Two solvers become twins as soon as both have allocated a work space. -/
lemma Abreast.allocate_bind (abreast : Abreast b s t) (log : t.log = s.log) (n : ℕ)
    {k : SolverM α β} (rest : Uniform (Twins b) k) :
    Matches (fun s' _ => Reusable b s') (allocate n >>= fun _ => k) (allocate n >>= fun _ => k)
      s t := by
  have settings : t.settings = s.settings :=
    abreast.right.problem.settings.trans abreast.left.problem.settings.symm
  have system : t.system = s.system :=
    abreast.right.problem.system.trans abreast.left.problem.system.symm
  have run := allocate_run abreast.left.allocated n
  have run' := allocate_run abreast.right.allocated n
  have same : t.newWorkspace n = s.newWorkspace n := by rw [newWorkspace, newWorkspace, settings]
  rw [same] at run'
  unfold Matches
  cases wanted : s.newWorkspace n with
  | error e =>
    rw [wanted] at run run'
    rw [run_bind_of_error run, run_bind_of_error run']
    exact ⟨rfl, abreast.left⟩
  | ok ws =>
    rw [wanted] at run run'
    obtain ⟨_, used, run, reset⟩ := run
    obtain ⟨_, used', run', reset'⟩ := run'
    rw [run_bind_of_ok run, run_bind_of_ok run']
    -- Either of the two may have kept its work space. They differ in nothing but its contents.
    have twins : Twins b (s.withWorkspace used) (t.withWorkspace used') := by
      have problem := abreast.left.problem
      refine ⟨⟨⟨problem.settings, problem.system, problem.start, problem.refresh⟩, ?_⟩, ?_⟩
      · rintro _ ⟨⟩
        have dimension : used.dimension = n :=
          (congrArg Workspace.dimension reset).trans (dimension_of_newWorkspace wanted)
        rw [dimension, reset, ← wanted]
        rfl
      · simp only [Solver.forget, Solver.withWorkspace, Option.map_some, reset, reset', settings,
          system, abreast.preconditioner, log]
    exact (rest _ _ twins).mono fun _ _ twins => twins.reusable

end Allocate

/-! ### Whole runs -/

section Solve

variable {α : Type} [CheckedScalar α] {b s t : Solver α}

/-- The result of a run does not depend on what the solver was used for before, as long as the
preconditioner is the same. -/
lemma Abreast.solve (pure : b.settings.PureHooks) (abreast : Abreast b s t) (x : Tensor α) :
    Matches (fun s' _ => Reusable b s') (solve x) (solve x) s t := by
  rw [solve_eq, prepare_bind]
  have emptied : Abreast b { s with log := [] } { t with log := [] } :=
    ⟨abreast.left.of_eq rfl rfl rfl rfl rfl, abreast.right.of_eq rfl rfl rfl rfl rfl,
      abreast.preconditioner⟩
  have unbound : t.system.isNone = s.system.isNone :=
    congrArg Option.isNone (abreast.right.problem.system.trans abreast.left.problem.system.symm)
  refine .modify_bind (.get_bind ?_)
  rw [unbound]
  split_ifs
  · exact .throw emptied.left _
  -- From the allocation on, the two solvers are twins.
  refine .lift_bind emptied.left fun v _ => emptied.allocate_bind rfl v.length ?_
  have same := makesSameRuns_twins pure
  refine .bind (same.outset v) fun o => ?_
  split_ifs
  · exact .bind (uniform_passes pure o.room o.start) (same.conclude o.norm)
  · exact same.conclude o.norm o.start

/-- The solver after runs from these states, one after the other, however each of them has ended. -/
def after (s : Solver α) (earlier : List (Tensor α)) : Solver α :=
  earlier.foldl (fun t y => ((Solver.solve y).run t).2) s

lemma Reusable.after (pure : b.settings.PureHooks) (reusable : Reusable b s)
    (earlier : List (Tensor α)) : Reusable b (s.after earlier) := by
  -- Each of the earlier runs is compared with itself; all that matters is what it leaves.
  induction earlier generalizing s with
  | nil => exact reusable
  | cons y earlier ih =>
    have abreast : Abreast b s s := ⟨reusable, reusable, rfl⟩
    exact ih (abreast.solve pure y).2

/-- A solver that has been used before gives the same result as a new one for the same problem. -/
theorem solve_after {s s' : Solver α} (fresh : s.workspace = none) (fresh' : s'.workspace = none)
    (problem : SameProblem s s') (pure : s.settings.PureHooks) (earlier : List (Tensor α))
    (x : Tensor α) :
    ((Solver.solve x).run (s.after earlier)).1 = ((Solver.solve x).run s').1 := by
  have reusable : Reusable s s := ⟨⟨rfl, rfl, rfl, rfl⟩, by simp [Allocated, fresh]⟩
  have reusable' : Reusable s s' := ⟨problem, by simp [Allocated, fresh']⟩
  have used := reusable.after pure earlier
  set t := s.after earlier
  -- No run uses the action from before it, so the used solver may be given that of the new one.
  have abreast : Abreast s (t.withAction s'.preconditioner.action) s' := by
    refine ⟨used.of_eq rfl rfl rfl rfl rfl, reusable', ?_⟩
    change s'.preconditioner
      = ⟨t.preconditioner.start, t.preconditioner.refresh, s'.preconditioner.action⟩
    rw [used.problem.start, used.problem.refresh, ← problem.start, ← problem.refresh]
  exact (solve_withAction x t _).symm.trans (abreast.solve pure x).1

end Solve

/-- Square roots of two numbers at most. -/
def fewRoots : Solver Float where
  settings := interrupted
  system := some ⟨fun x =>
    if x.entries.length ≤ 2 then .ok (x.map fun a => a * a - 4) else .error .wrongType, .none⟩
  preconditioner := .jacobi fun x => .ok (x.map fun a => 2 * a)

/-- The solver was used for two numbers and then, in vain, for three. -/
theorem solve_after_fewRoots :
    (∃ e, ((solve ⟨[3], [3, 3, 3]⟩).run fewRoots).1 = .error e) ∧ ∃ sol,
      ((solve ⟨[1], [3]⟩).run (fewRoots.after [⟨[2], [3, 5]⟩, ⟨[3], [3, 3, 3]⟩])).1 = .ok sol ∧
      ((solve ⟨[1], [3]⟩).run fewRoots).1 = .ok sol := by
  have fails : (match ((solve ⟨[3], [3, 3, 3]⟩).run fewRoots).1 with
      | .ok _ => false
      | .error _ => true) = true := by
    decide +kernel
  have ends : (match ((solve ⟨[1], [3]⟩).run fewRoots).1 with
      | .ok _ => true
      | .error _ => false) = true := by
    decide +kernel
  have pure : fewRoots.settings.PureHooks := by
    intro point hook given m n x
    cases point with
    | poststep =>
      obtain rfl := Except.ok.inj (Option.some.inj given)
      rfl
    | _ => cases given
  have problem : SameProblem fewRoots fewRoots := ⟨rfl, rfl, rfl, rfl⟩
  have same := solve_after rfl rfl problem pure [⟨[2], [3, 5]⟩, ⟨[3], [3, 3, 3]⟩] ⟨[1], [3]⟩
  rw [same]
  constructor
  · rcases run : ((solve ⟨[3], [3, 3, 3]⟩).run fewRoots).1 with e | sol
    · exact ⟨e, rfl⟩
    · simp [run] at fails
  · rcases run : ((solve ⟨[1], [3]⟩).run fewRoots).1 with e | sol
    · simp [run] at ends
    · exact ⟨sol, rfl, rfl⟩

end Solver

end NewtonKrylov
