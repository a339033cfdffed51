import NewtonKrylov.Proofs.Newton.Passes
import NewtonKrylov.Proofs.Newton.SameCycles

/-!
# Solvers that make the same runs

Two solvers may differ in what a run does not read, or not before it has written it.
`MakesSameRuns` says of a relation between solvers that each call comes to the same for related ones
and leaves them related, and every part of a run then does so too. The limits for the steps of their
line searches may differ: a pass comes to the same if the line search in it does.

Nothing here depends on the arithmetic.
-/

namespace NewtonKrylov

/-- The settings with another limit for the steps of line searches. -/
def Settings.limitSearches {α : Type} (settings : Settings α)
    (g : Setting Limit → Setting Limit) : Settings α :=
  { settings with searchSteps := g settings.searchSteps }

namespace Solver

/-! ### Parts of a run that cannot tell solvers apart -/

section Uniform

variable {α β γ : Type} {R : Solver α → Solver α → Prop}

/-- A part of a run that cannot tell related solvers apart. -/
def Uniform (R : Solver α → Solver α → Prop) (m : SolverM α β) : Prop :=
  ∀ s t, R s t → Matches R m m s t

namespace Uniform

lemma pure (c : β) : Uniform R (pure c : SolverM α β) := fun _ _ related => .pure related c

lemma throw (e : Error) : Uniform R (throw e : SolverM α β) := fun _ _ related => .throw related e

lemma lift (r : Except Error β) : Uniform R (liftM r : SolverM α β) := fun _ _ related =>
  .lift related r

lemma bind {m : SolverM α γ} {k : γ → SolverM α β} (first : Uniform R m)
    (rest : ∀ c, Uniform R (k c)) : Uniform R (m >>= k) := fun s t related =>
  (first s t related).bind fun c s' t' _ => rest c s' t'

end Uniform

end Uniform

/-! ### Runs of single calls -/

section Calls

variable {α : Type} {s t : Solver α} {x r : Tensor α}

lemma of_callHook_run {point : HookPoint} {a : HookAnswer}
    (run : (callHook point x).run s = (.ok a, t)) :
    s.hookAnswer point x = .ok a ∧ t = s.afterHook point x :=
  (callHook_leads (Q := fun a t => s.hookAnswer point x = .ok a ∧ t = s.afterHook point x)
    (E := fun _ => True) trivial fun _ answer => ⟨answer, rfl⟩).result run

lemma of_boundSystem_run {F : NonlinearSystem α}
    (run : (boundSystem : SolverM α _).run s = (.ok F, t)) : s.system = some F ∧ t = s := by
  unfold boundSystem at run
  rw [run_get_bind] at run
  cases bound : s.system with
  | none =>
    rw [bound] at run
    cases run
  | some F =>
    rw [bound] at run
    cases run
    exact ⟨rfl, rfl⟩

lemma of_evaluate_run [CheckedScalar α] (run : (evaluate x).run s = (.ok r, t)) :
    ∃ F, s.system = some F ∧ F.residual x = .ok r ∧ t = s.logged (.evaluated x) := by
  cases bound : s.system with
  | none =>
    have unbound : (boundSystem : SolverM α _).run s = (.error .notSet, s) := by
      unfold boundSystem
      rw [run_get_bind, bound]
      rfl
    have fails : (evaluate x).run s = (.error .notSet, s) := run_bind_of_error unbound
    cases run.symm.trans fails
  | some F =>
    obtain ⟨value, same⟩ := (evaluate_leads bound
      (Q := fun r t => F.residual x = .ok r ∧ t = s.logged (.evaluated x)) (E := fun _ => True)
      trivial fun _ value => ⟨value, rfl⟩).result run
    exact ⟨F, rfl, value, same⟩

end Calls

/-! ### The line search of a pass -/

/-- A pass from here begins a line search along the step `dx`. The residual norm after the full step
is `fullNorm`. -/
structure BeginsSearch {α : Type} [CheckedScalar α] (F : NonlinearSystem α) (it : Iteration α)
    (t : Solver α) (r dx : Tensor α) (fullNorm : α) : Prop where
  system : t.system = some F
  answer : ∃ pre, t.hookAnswer .prestep it.state = .ok pre ∧ pre.asksFor .exit = false
  value : F.residual it.state = .ok r
  proposes : Proposes F (t.beforeStep it.state) it.state r r.norm (it.iterations + 1) dx fullNorm
  increased : ¬ fullNorm ≤ r.norm

/-- There is one such search at most. -/
lemma BeginsSearch.unique {α : Type} [CheckedScalar α] {F F' : NonlinearSystem α}
    {it : Iteration α} {t : Solver α} {r r' dx dx' : Tensor α} {fullNorm fullNorm' : α}
    (begins : BeginsSearch F it t r dx fullNorm) (begins' : BeginsSearch F' it t r' dx' fullNorm') :
    F = F' ∧ r = r' ∧ dx = dx' ∧ fullNorm = fullNorm' := by
  obtain ⟨system, -, residual, ⟨⟨proposed, norms, u, solved, guarded⟩, value⟩, -⟩ := begins
  obtain ⟨system', -, residual', ⟨⟨proposed', norms', u', solved', guarded'⟩, value'⟩, -⟩ := begins'
  cases system.symm.trans system'
  cases residual.symm.trans residual'
  cases solved.symm.trans solved'
  cases guarded.symm.trans guarded'
  cases value.symm.trans value'
  exact ⟨rfl, rfl, rfl, rfl⟩

/-! ### The parts of a run -/

/-- Solvers related by `R` make the same calls and remain related. What limits the line searches of
the one is `g` of what limits those of the other. -/
structure MakesSameRuns {α : Type} [Scalar α] (R : Solver α → Solver α → Prop)
    (g : Setting Limit → Setting Limit) : Prop extends TakesSameCycles R where
  settings {s t : Solver α} : R s t → t.settings = s.settings.limitSearches g
  system {s t : Solver α} : R s t → t.system = s.system
  preconditioner {s t : Solver α} : R s t → t.preconditioner = s.preconditioner
  log {s t : Solver α} : R s t → t.log = s.log
  answer {s t : Solver α} (point : HookPoint) (x : Tensor α) :
    R s t → t.hookAnswer point x = s.hookAnswer point x
  afterHook {s t : Solver α} (point : HookPoint) (x : Tensor α) :
    R s t → R (s.afterHook point x) (t.afterHook point x)
  logged {s t : Solver α} (e : Event α) : R s t → R (s.logged e) (t.logged e)
  /-- A preconditioner that is built anew in both is built in the same way the next time. -/
  rebuilt {s t : Solver α} {p : Preconditioner α} : R s t → p.start = s.preconditioner.start →
    p.refresh = s.preconditioner.refresh →
    R { s with preconditioner := p } { t with preconditioner := p }

namespace MakesSameRuns

variable {α : Type} {R : Solver α → Solver α → Prop} {g : Setting Limit → Setting Limit}

section Scalar

variable [Scalar α] (same : MakesSameRuns R g)
include same

lemma record (e : Event α) : Uniform R (record e) := fun _ _ related =>
  .modify (same.logged e related)

lemma reportChange (f : ReportFiles α → ReportFiles α) : Uniform R (Solver.report f) :=
  fun _ _ related => .modify (same.report f related)

lemma boundSystem : Uniform R (boundSystem : SolverM α (NonlinearSystem α)) := by
  intro s t related
  refine .get_bind ?_
  rw [same.system related]
  cases s.system with
  | none => exact .throw related _
  | some F => exact .pure related F

lemma callHook (point : HookPoint) (x : Tensor α) : Uniform R (callHook point x) := by
  intro s t related
  unfold Matches
  rw [callHook_run, callHook_run, same.answer point x related]
  cases s.hookAnswer point x with
  | error e => exact ⟨rfl, related⟩
  | ok a => exact ⟨rfl, same.afterHook point x related⟩

lemma conclude (norm : α) (last : Iteration α) : Uniform R (conclude norm last) := by
  refine .bind (same.callHook .postsolve last.state) fun answer => ?_
  intro s t related
  refine .get_bind ?_
  rw [same.log related]
  exact .pure related _

end Scalar

variable [CheckedScalar α] {s t : Solver α} (same : MakesSameRuns R g)
include same

lemma evaluate (x : Tensor α) : Uniform R (evaluate x) :=
  .bind same.boundSystem fun _ => .bind (same.record _) fun _ => .lift _

lemma reportNewton (step : ℤ) (norm size : α) (x : Tensor α) (heading : Bool) :
    Uniform R (reportNewton step norm size x heading) := by
  intro s t related
  refine .get_bind ?_
  rw [same.settings related]
  dsimp only [Settings.limitSearches]
  cases s.settings.newtonDirectory with
  | none => exact .pure related _
  | some directory => exact Uniform.bind (.lift _) (fun _ => same.reportChange _) s t related

/-- Looking for a step comes to the same if the line search along it does. -/
lemma newtonStep {x r : Tensor α} {norm : α} {index : ℤ} (related : R s t)
    (searches : ∀ F dx fullNorm, s.system = some F → Proposes F s x r norm index dx fullNorm →
      ¬ fullNorm ≤ norm → searchAlong F (s.settings.limitSearches g) x dx norm fullNorm
        = searchAlong F s.settings x dx norm fullNorm) :
    Matches R (newtonStep x r norm index) (newtonStep x r norm index) s t := by
  refine (same.linearSolve x r norm index related).bind
    fun (proposed, norms) u v solved behind => ?_
  have kept := (linearSolve_stays x r norm index s).result solved
  refine (same.boundSystem u v behind).bind fun F u' v' found related => ?_
  obtain ⟨bound, rfl⟩ := of_boundSystem_run found
  refine .lift_bind related fun dx guarded => .lift_bind related fun fullNorm value => ?_
  split_ifs with le
  · exact .lift_bind related fun y _ => .lift_bind related fun size _ => .pure related _
  have search := searches F dx fullNorm (kept.system.symm.trans bound)
    ⟨⟨_, _, _, solved, guarded⟩, value⟩ le
  rw [← kept.settings] at search
  refine .get_bind ?_
  rw [same.settings related]
  change Matches R (liftM (searchAlong F u'.settings x dx norm fullNorm) >>= _)
    (liftM (searchAlong F (u'.settings.limitSearches g) x dx norm fullNorm) >>= _) u' v'
  rw [search]
  dsimp -zeta only [Settings.limitSearches]
  refine .lift_bind related fun out _ => ?_
  -- With and without a report of the search the step is decided upon in the same way.
  extract_lets decide
  have decided (c : PUnit) : Uniform R (decide c) := by
    unfold decide
    split_ifs
    · exact .bind (.lift _) fun y => .bind (.lift _) fun size => .pure _
    · exact .pure _
  split
  · exact Uniform.bind (.lift _) (fun path => .bind (same.reportChange _) decided) _ _ related
  · exact decided ⟨⟩ _ _ related

/-- The iteration behind an accepted step is the same. -/
lemma advance {it : Iteration α} (related : R s t) (x : Tensor α) (norm size : α) :
    it.advance t.settings x norm size = it.advance s.settings x norm size := by
  rw [same.settings related]
  rfl

/-- A pass comes to the same if the line search in it does. -/
lemma pass {it : Iteration α} (related : R s t)
    (searches : ∀ F r dx fullNorm, BeginsSearch F it s r dx fullNorm →
      searchAlong F (s.settings.limitSearches g) it.state dx r.norm fullNorm
        = searchAlong F s.settings it.state dx r.norm fullNorm) :
    Matches R (pass it) (pass it) s t := by
  refine (same.callHook .prestep it.state s t related).bind fun pre u v called related => ?_
  obtain ⟨answer, rfl⟩ := of_callHook_run called
  split_ifs with exits
  · exact .pure related _
  refine (same.evaluate it.state _ v related).bind fun r u v evaluated related => ?_
  obtain ⟨F, bound, value, rfl⟩ := of_evaluate_run evaluated
  rw [afterHook_system] at bound
  refine (same.newtonStep related fun F' dx fullNorm bound' proposes increased => ?_).bind
    fun step u v _ related => ?_
  · obtain rfl : F' = F := Option.some.inj (bound'.symm.trans (by simpa using bound))
    rw [logged_settings, afterHook_settings]
    exact searches F' r dx fullNorm ⟨bound, ⟨pre, answer, by simpa using exits⟩, value, proposes,
      increased⟩
  refine Uniform.bind (same.record _) (fun _ => ?_) u v related
  cases step.state with
  | none => exact .pure _
  | some y =>
    refine .bind (same.callHook .poststep y) fun post => ?_
    split_ifs
    · exact .pure _
    refine .bind (same.record _) fun _ => ?_
    intro s t related
    refine .get_bind ?_
    rw [same.preconditioner related]
    refine .lift_bind related fun p built => ?_
    -- Only the action is exchanged, so the preconditioners are rebuilt alike the next time too.
    obtain ⟨action, -, ⟨⟩⟩ := bind_eq_ok.mp built
    refine Matches.modify_bind ?_
    have related := same.rebuilt related (p := ⟨_, _, action⟩) rfl rfl
    refine Uniform.bind (same.reportNewton _ _ _ _ _) (fun _ => ?_) _ _ related
    intro s t related
    refine .get_bind ?_
    dsimp only
    rw [same.advance related, same.settings related]
    exact .lift_bind related fun next _ => .lift_bind related fun limit _ => .pure related _

lemma outset (v : Vec α) : Uniform R (outset v) := by
  refine .bind (same.callHook .presolve _) fun pre => .bind same.boundSystem fun F => ?_
  refine .bind (same.record _) fun _ => .bind (.lift _) fun y => ?_
  refine .bind (same.evaluate y) fun r => .bind (same.record _) fun _ => ?_
  intro s t related
  refine .get_bind ?_
  rw [same.preconditioner related]
  refine .lift_bind related fun p built => ?_
  obtain ⟨action, -, ⟨⟩⟩ := bind_eq_ok.mp built
  refine Matches.modify_bind ?_
  have related := same.rebuilt related (p := ⟨_, _, action⟩) rfl rfl
  refine Uniform.bind (same.reportNewton _ _ _ _ _) (fun _ => ?_) _ _ related
  intro s t related
  refine .get_bind ?_
  rw [same.settings related]
  exact .lift_bind related fun tolerance _ => .lift_bind related fun limit _ => .pure related _

end MakesSameRuns

end Solver

end NewtonKrylov
