import NewtonKrylov.Proofs.Newton.Bookkeeping
import NewtonKrylov.Proofs.Newton.Indifference

/-!
# The order of the calls

A run calls its hooks, the guard, the residual and the preconditioner in a fixed order. `Underway`
and `Ending` are the grammar of this order: the first describes the logs that a run may have left
where a pass begins, and the second those where the last pass has ended, by any of its exits. A hook
that is not given leaves nothing in the log. What the answers of the hooks have to do with the exits
is part of the grammar.

Between two passes the preconditioner is the one that was built at the present state, so a step is
looked for with no other. The one in force before a run is never used.
-/

namespace NewtonKrylov

/-- The state for which an entry of a log builds the preconditioner anew after a step. -/
def refreshed? {α : Type} : Event α → Option (Tensor α)
  | .refreshed x => some x
  | _ => none

/-- The states for which the preconditioner was built anew after a step. -/
def refreshedStates {α : Type} (log : List (Event α)) : List (Tensor α) :=
  log.filterMap refreshed?

/-- Entries that the passes of an iteration leave in a log. -/
def Event.InPass {α : Type} : Event α → Prop
  | .hook point _ => point = .prestep ∨ point = .poststep
  | .evaluated _ | .refreshed _ | .attempted _ _ => True
  | .guarded _ | .started _ => False

namespace Solver

variable {α : Type}

/-! ### The grammar -/

section Grammar

/-- What a call of the hook at a point leaves in the log. -/
def calling (s : Solver α) (point : HookPoint) (x : Tensor α) : List (Event α) :=
  match s.settings.hooks point with
  | none => []
  | some _ => [.hook point x]

/-- What a run from a vector leaves in the log before its first pass. -/
def opening (s : Solver α) (v : Vec α) (y : Tensor α) : List (Event α) :=
  s.calling .presolve (Tensor.ofVec v) ++ [.guarded (Tensor.ofVec v), .evaluated y, .started y]

/-- What a pass leaves in the log until it has looked for a step. -/
def looking (s : Solver α) (x : Tensor α) (out : StepOutcome α) : List (Event α) :=
  s.calling .prestep x ++ [.evaluated x, .attempted x out]

variable [CheckedScalar α] (F : NonlinearSystem α) (s : Solver α)

/-- In a run from `s` that has recorded `k` steps and is at `x` this came of looking for the next
one. Until then the preconditioner is the one that was built at `x`. -/
structure Looked (k : ℕ) (x : Tensor α) (out : StepOutcome α) (action : Operator α) : Prop where
  built : (if k = 0 then s.preconditioner.start x else s.preconditioner.refresh x) = .ok action
  computed : ∃ r u t, F.residual x = .ok r ∧ u.system = some F ∧ u.settings = s.settings ∧
    u.preconditioner = { s.preconditioner with action := action } ∧
    (newtonStep x r r.norm (k + 1)).run u = (.ok out, t) ∧ t.preconditioner = u.preconditioner

/-- The log of a run from `s` and `x`, where a pass begins at a state with `k` steps recorded. -/
inductive Underway (x : Tensor α) : ℕ → Tensor α → List (Event α) → Prop
  | start {v : Vec α} {y : Tensor α} (vector : initialState x = .ok v)
      (guarded : F.guard.value (Tensor.ofVec v) = .ok y) : Underway x 0 y (s.opening v y)
  | step {k : ℕ} {y z : Tensor α} {log : List (Event α)} {out : StepOutcome α}
      {action : Operator α} (before : Underway x k y log) (looked : Looked F s k y out action)
      (accepted : out.state = some z)
      (unasked : ¬ s.AskedToExit (log ++ s.looking y out ++ s.calling .poststep z)) :
      Underway x (k + 1) z (log ++ s.looking y out ++ s.calling .poststep z ++ [.refreshed z])

/-- The log of a run from `s` and `x` after its last pass, before the last hook is called. -/
inductive Ending (x : Tensor α) : ℕ → Tensor α → List (Event α) → Prop
  /-- Behind the start, or behind a step that was recorded. -/
  | done {k : ℕ} {y : Tensor α} {log : List (Event α)} (underway : Underway F s x k y log) :
      Ending x k y log
  | exitBefore {k : ℕ} {y : Tensor α} {log : List (Event α)} (underway : Underway F s x k y log)
      (unasked : ¬ s.AskedToExit log) (asked : s.AskedToExit (log ++ s.calling .prestep y)) :
      Ending x k y (log ++ s.calling .prestep y)
  | rejected {k : ℕ} {y : Tensor α} {log : List (Event α)} {out : StepOutcome α}
      {action : Operator α} (underway : Underway F s x k y log)
      (unasked : ¬ s.AskedToExit (log ++ s.looking y out)) (looked : Looked F s k y out action)
      (none : out.state = none) : Ending x k y (log ++ s.looking y out)
  | exitAfter {k : ℕ} {y z : Tensor α} {log : List (Event α)} {out : StepOutcome α}
      {action : Operator α} (underway : Underway F s x k y log)
      (unasked : ¬ s.AskedToExit (log ++ s.looking y out)) (looked : Looked F s k y out action)
      (accepted : out.state = some z)
      (asked : s.AskedToExit (log ++ s.looking y out ++ s.calling .poststep z)) :
      Ending x k z (log ++ s.looking y out ++ s.calling .poststep z)

end Grammar

/-! ### What the grammar tells -/

section Calling

variable {s : Solver α} {point : HookPoint} {x : Tensor α}

lemma eq_hook_of_mem_calling {e : Event α} (mem : e ∈ s.calling point x) : e = .hook point x := by
  unfold calling at mem
  split at mem
  · simp at mem
  · simpa using mem

lemma filterMap_calling {β : Type} {f : Event α → Option β} (ignored : f (.hook point x) = none) :
    (s.calling point x).filterMap f = [] :=
  List.filterMap_eq_nil_iff.mpr fun _ mem => eq_hook_of_mem_calling mem ▸ ignored

@[simp] lemma refreshedStates_calling : refreshedStates (s.calling point x) = [] :=
  filterMap_calling rfl

@[simp] lemma recordedStates_calling : recordedStates (s.calling point x) = [] :=
  filterMap_calling rfl

@[simp] lemma refreshedStates_looking {out : StepOutcome α} :
    refreshedStates (s.looking x out) = [] := by
  rw [looking, refreshedStates, List.filterMap_append, filterMap_calling rfl]
  rfl

@[simp] lemma refreshedStates_append (l l' : List (Event α)) :
    refreshedStates (l ++ l') = refreshedStates l ++ refreshedStates l' := List.filterMap_append ..

lemma recordedStates_append (l l' : List (Event α)) :
    recordedStates (l ++ l') = recordedStates l ++ recordedStates l' := List.filterMap_append ..

@[simp] lemma recordedStates_opening {v : Vec α} {y : Tensor α} :
    recordedStates (s.opening v y) = [y] := by
  rw [opening, recordedStates_append, recordedStates_calling]
  rfl

lemma log_afterHook {t : Solver α} (same : t.settings = s.settings) :
    (t.afterHook point x).log = t.log ++ s.calling point x := by
  unfold afterHook calling
  rw [same]
  cases s.settings.hooks point with
  | none => exact (List.append_nil _).symm
  | some hook => rfl

end Calling

/-- Every step that a log tells of satisfies `P`, which may speak of the log before it. -/
def EachStep (P : List (Event α) → Tensor α → StepOutcome α → Prop) (log : List (Event α)) : Prop :=
  ∀ before y out after, log = before ++ .attempted y out :: after → P before y out

namespace EachStep

variable {P : List (Event α) → Tensor α → StepOutcome α → Prop} {log : List (Event α)}

lemma nil : EachStep P ([] : List (Event α)) := by
  intro before y out after same
  simp at same

lemma concat {e : Event α} (each : EachStep P log)
    (next : ∀ y out, e = .attempted y out → P log y out) : EachStep P (log ++ [e]) := by
  intro before y out after same
  -- The step that is told of is the last entry of the log, or stands before it.
  rcases List.eq_nil_or_concat' after with rfl | ⟨init, last, rfl⟩
  · obtain ⟨rfl, entry⟩ := List.append_inj' same rfl
    exact next y out (List.singleton_inj.mp entry)
  · rw [← List.cons_append, ← List.append_assoc] at same
    exact each before y out init (List.append_inj' same rfl).1

lemma append {l : List (Event α)} (each : EachStep P log)
    (none : ∀ e ∈ l, ∀ y out, e ≠ .attempted y out) : EachStep P (log ++ l) := by
  induction l generalizing log with
  | nil => rwa [List.append_nil]
  | cons e l ih =>
    rw [List.forall_mem_cons] at none
    rw [List.append_cons]
    exact ih (each.concat fun y out same => absurd same (none.1 y out)) none.2

lemma calling {s : Solver α} {point : HookPoint} {x : Tensor α} (each : EachStep P log) :
    EachStep P (log ++ s.calling point x) :=
  each.append fun e mem y out same => by simp [eq_hook_of_mem_calling mem] at same

lemma looking {s : Solver α} {x : Tensor α} {out : StepOutcome α} (each : EachStep P log)
    (next : P (log ++ s.calling .prestep x ++ [.evaluated x]) x out) :
    EachStep P (log ++ s.looking x out) := by
  have evaluated : EachStep P (log ++ s.calling .prestep x ++ [.evaluated x]) :=
    each.calling.concat fun _ _ same => by cases same
  have attempted :
      EachStep P (log ++ s.calling .prestep x ++ [.evaluated x] ++ [.attempted x out]) :=
    evaluated.concat fun y out' same => by
      cases same
      exact next
  simpa [Solver.looking] using attempted

end EachStep

section Grammar

variable [CheckedScalar α] {F : NonlinearSystem α} {s : Solver α} {x y : Tensor α} {k : ℕ}
  {log : List (Event α)}

/-- The step behind a log was looked for from the last recorded state, where the preconditioner was
built last. -/
def FromCurrent (F : NonlinearSystem α) (s : Solver α) (log : List (Event α)) (y : Tensor α)
    (out : StepOutcome α) : Prop :=
  (recordedStates log).getLast? = some y ∧
    ∃ action, Looked F s (refreshedStates log).length y out action

/-- What the logs of the grammar have in common. -/
structure Ordered (F : NonlinearSystem α) (s : Solver α) (x : Tensor α) (k : ℕ)
    (log : List (Event α)) : Prop where
  opens : ∃ v y rest, initialState x = .ok v ∧ F.guard.value (Tensor.ofVec v) = .ok y ∧
    log = s.opening v y ++ rest ∧ ∀ e ∈ rest, e.InPass
  refreshed : (refreshedStates log).length = k
  steps : EachStep (FromCurrent F s) log

namespace Ordered

lemma start {v : Vec α} (vector : initialState x = .ok v)
    (guarded : F.guard.value (Tensor.ofVec v) = .ok y) : Ordered F s x 0 (s.opening v y) where
  opens := ⟨v, y, [], vector, guarded, (List.append_nil _).symm, by simp⟩
  refreshed := by
    simp [opening]
    rfl
  steps := EachStep.append (EachStep.nil.calling) (by simp)

/-- Behind entries of passes that build no preconditioner. -/
lemma append (ordered : Ordered F s x k log) {l : List (Event α)} (passes : ∀ e ∈ l, e.InPass)
    (none : refreshedStates l = []) (steps : EachStep (FromCurrent F s) (log ++ l)) :
    Ordered F s x k (log ++ l) where
  opens := by
    obtain ⟨v, y, rest, vector, guarded, rfl, within⟩ := ordered.opens
    refine ⟨v, y, rest ++ l, vector, guarded, List.append_assoc .., fun e mem => ?_⟩
    rcases List.mem_append.mp mem with mem | mem
    · exact within e mem
    · exact passes e mem
  refreshed := by rw [refreshedStates_append, none, List.append_nil, ordered.refreshed]
  steps := steps

lemma calling (ordered : Ordered F s x k log) {point : HookPoint}
    (inner : point = .prestep ∨ point = .poststep) :
    Ordered F s x k (log ++ s.calling point y) :=
  ordered.append (fun _ mem => eq_hook_of_mem_calling mem ▸ inner) refreshedStates_calling
    ordered.steps.calling

lemma looking (ordered : Ordered F s x k log) (current : (recordedStates log).getLast? = some y)
    {out : StepOutcome α} {action : Operator α} (looked : Looked F s k y out action) :
    Ordered F s x k (log ++ s.looking y out) := by
  have passes : ∀ e ∈ s.looking y out, e.InPass := by
    intro e mem
    rcases List.mem_append.mp mem with mem | mem
    · exact eq_hook_of_mem_calling mem ▸ .inl rfl
    · rcases List.mem_pair.mp mem with rfl | rfl <;> exact trivial
  -- Between the last record and the step nothing is recorded and nothing built, so the step is one
  -- from the current state.
  refine ordered.append passes refreshedStates_looking (ordered.steps.looking ⟨?_, action, ?_⟩)
  · rw [recordedStates_append, recordedStates_append, recordedStates_calling, List.append_nil]
    exact (congrArg List.getLast? (List.append_nil _)).trans current
  · rw [refreshedStates_append, refreshedStates_append, refreshedStates_calling, List.append_nil]
    have same : refreshedStates log ++ refreshedStates [.evaluated y] = refreshedStates log :=
      List.append_nil _
    rwa [same, ordered.refreshed]

lemma refresh (ordered : Ordered F s x k log) (z : Tensor α) :
    Ordered F s x (k + 1) (log ++ [.refreshed z]) where
  opens := by
    obtain ⟨v, y, rest, vector, guarded, rfl, within⟩ := ordered.opens
    refine ⟨v, y, rest ++ [.refreshed z], vector, guarded, List.append_assoc .., fun e mem => ?_⟩
    rcases List.mem_append.mp mem with mem | mem
    · exact within e mem
    · rw [List.mem_singleton.mp mem]
      exact trivial
  refreshed := by
    rw [refreshedStates_append, List.length_append, ordered.refreshed]
    rfl
  steps := ordered.steps.concat fun _ _ same => by cases same

end Ordered

/-- Where a pass begins, the last recorded state is the present one. -/
lemma Underway.current (underway : Underway F s x k y log) :
    (recordedStates log).getLast? = some y := by
  cases underway with
  | start => rw [recordedStates_opening, List.getLast?_singleton]
  | step =>
    rw [recordedStates_append]
    exact List.getLast?_concat

theorem Underway.ordered (underway : Underway F s x k y log) : Ordered F s x k log := by
  -- The induction is on the steps that have been recorded.
  induction underway with
  | start vector guarded => exact .start vector guarded
  | step before looked accepted unasked ih =>
    exact ((ih.looking before.current looked).calling (.inr rfl)).refresh _

theorem Ending.ordered (ending : Ending F s x k y log) : Ordered F s x k log := by
  cases ending with
  | done underway => exact underway.ordered
  | exitBefore underway => exact underway.ordered.calling (.inl rfl)
  | rejected underway unasked looked => exact underway.ordered.looking underway.current looked
  | exitAfter underway unasked looked =>
    exact (underway.ordered.looking underway.current looked).calling (.inr rfl)

/-- A Jacobi preconditioner divides by the diagonal at the present state, and leaves an entry alone
where it is zero. -/
lemma Looked.jacobi {out : StepOutcome α} {action action₀ : Operator α}
    (looked : Looked F s k y out action) {diagonal : Operator α}
    (jacobi : s.preconditioner = { Preconditioner.jacobi diagonal with action := action₀ }) :
    ∃ d, diagonal y = .ok d ∧ ∀ v,
      action v = Tensor.combine (· * ·) (d.map fun a => if a != 0 then 1 / a else 1) v := by
  have built : Preconditioner.jacobiAction diagonal y = .ok action := by
    simpa [jacobi, Preconditioner.jacobi] using looked.built
  obtain ⟨d, value, built⟩ := bind_eq_ok.mp built
  cases built
  exact ⟨d, value, fun v => rfl⟩

end Grammar

/-! ### One pass -/

section Pass

variable {F : NonlinearSystem α} {s t u : Solver α} {x : Tensor α}

lemma startAt_eq_ok {p q : Preconditioner α} (built : p.startAt x = .ok q) :
    ∃ action, p.start x = .ok action ∧ q = { p with action := action } := by
  obtain ⟨action, value, ⟨⟩⟩ := bind_eq_ok.mp built
  exact ⟨action, value, rfl⟩

lemma refreshAt_eq_ok {p q : Preconditioner α} (built : p.refreshAt x = .ok q) :
    ∃ action, p.refresh x = .ok action ∧ q = { p with action := action } := by
  obtain ⟨action, value, ⟨⟩⟩ := bind_eq_ok.mp built
  exact ⟨action, value, rfl⟩

/-- With `k` steps recorded, the preconditioner in force is the one that was built at `y`. -/
def RebuiltAt (s : Solver α) (k : ℕ) (y : Tensor α) (t : Solver α) : Prop :=
  ∃ action, (if k = 0 then s.preconditioner.start y else s.preconditioner.refresh y) = .ok action ∧
    t.preconditioner = { s.preconditioner with action := action }

lemma RebuiltAt.refresh {k : ℕ} {y z : Tensor α} (rebuilt : RebuiltAt s k y t)
    {p : Preconditioner α} (built : t.preconditioner.refreshAt z = .ok p)
    (inForce : u.preconditioner = p) : RebuiltAt s (k + 1) z u := by
  obtain ⟨action₀, -, before⟩ := rebuilt
  obtain ⟨action, value, rfl⟩ := refreshAt_eq_ok built
  rw [before] at value inForce
  exact ⟨action, value, inForce⟩

variable [CheckedScalar α] {it it' : Iteration α}

/-- Where a pass of a run from `s` and `x` begins. -/
structure Ready (F : NonlinearSystem α) (s : Solver α) (x : Tensor α) (it : Iteration α)
    (t : Solver α) : Prop where
  underway : Underway F s x it.iterations it.state t.log
  counted : Counted s t
  unasked : ¬ s.AskedToExit t.log
  system : t.system = some F
  rebuiltAt : RebuiltAt s it.iterations it.state t

namespace Ready

variable (ready : Ready F s x it t) (same : t.settings = s.settings) {pre post : HookAnswer}
  {out : StepOutcome α}
include ready same

omit ready in
lemma log_eq (attempts : Attempts F t it pre out u) : u.log = t.log ++ s.looking it.state out := by
  rw [attempts.log_eq]
  simp [logged, log_afterHook same, looking]

lemma looked (attempts : Attempts F t it pre out u) :
    ∃ action, Looked F s it.iterations it.state out action := by
  obtain ⟨action, built, inForce⟩ := ready.rebuiltAt
  obtain ⟨r, v, value, run⟩ := attempts.looked
  have system : ((t.afterHook .prestep it.state).logged (.evaluated it.state)).system = some F := by
    simpa using ready.system
  have kept := ((newtonStep_leads system it.state r r.norm _).result run).2
  refine ⟨action, built, r, _, v, value, system, by simpa using same, ?_, run, kept.preconditioner⟩
  simpa using inForce

/-- A hook asks for the end exactly if some hook has done so by then. -/
lemma askedToExit_poststep (attempts : Attempts F t it pre out u) {y : Tensor α}
    (answer : u.hookAnswer .poststep y = .ok post) :
    s.AskedToExit (t.log ++ s.looking it.state out ++ s.calling .poststep y) ↔
      post.asksFor .exit = true := by
  have settings := attempts.settings.trans same
  rw [← log_eq same attempts, ← log_afterHook settings,
    askedToExit_afterHook (attempts.counted ready.counted) settings answer (by simp),
    attempts.askedToExit ready.counted same]
  simp [ready.unasked]

lemma not_askedToExit (attempts : Attempts F t it pre out u) :
    ¬ s.AskedToExit (t.log ++ s.looking it.state out) := by
  rw [← log_eq same attempts, attempts.askedToExit ready.counted same]
  exact ready.unasked

/-- A pass ends in one of the four ways of the grammar, and is followed by another one in order. -/
theorem pass {again : Bool} (passed : Passed F t it (it', again) u) :
    Ending F s x it'.iterations it'.state u.log ∧ (again = true → Ready F s x it' u) := by
  cases passed with
  | exitBefore answer exits =>
    refine ⟨?_, nofun⟩
    -- No step was looked for: the hook in front of it has made the last entry.
    have asked := askedToExit_afterHook ready.counted same answer (by simp)
    rw [log_afterHook same] at asked ⊢
    exact .exitBefore ready.underway ready.unasked (asked.mpr (.inr exits))
  | rejected attempts none =>
    obtain ⟨action, looked⟩ := ready.looked same attempts
    refine ⟨?_, nofun⟩
    rw [log_eq same attempts]
    exact .rejected ready.underway (ready.not_askedToExit same attempts) looked none
  | exitAfter attempts accepted answer exits =>
    obtain ⟨action, looked⟩ := ready.looked same attempts
    refine ⟨?_, nofun⟩
    rw [log_afterHook (attempts.settings.trans same), log_eq same attempts]
    -- The step was accepted, but the hook behind it has asked before it was recorded.
    exact .exitAfter ready.underway (ready.not_askedToExit same attempts) looked accepted
      ((ready.askedToExit_poststep same attempts answer).mpr exits)
  | @recorded _ _ out v _ y p _ _ attempts accepted answer not_exit rebuilt keeps advance max =>
    obtain ⟨action, looked⟩ := ready.looked same attempts
    have advanced := advanced_of_eq_ok advance
    have settings := attempts.settings.trans same
    have asked := ready.askedToExit_poststep same attempts answer
    -- No hook has asked for the end, and only the entry of the new preconditioner is left to add.
    have refreshed : u.log = ((v.afterHook .poststep y).logged (.refreshed y)).log := keeps.log
    have log : u.log
        = t.log ++ s.looking it.state out ++ s.calling .poststep y ++ [.refreshed y] := by
      rw [refreshed, ← log_eq same attempts, ← log_afterHook settings]
      rfl
    have underway : Underway F s x it'.iterations it'.state u.log := by
      rw [advanced.iterations, advanced.state, log]
      exact .step ready.underway looked accepted (by rw [asked]; simp [not_exit])
    refine ⟨.done underway, fun _ => ?_⟩
    constructor
    case underway => exact underway
    case counted =>
      have called : Counted s ((v.afterHook .poststep y).logged (.refreshed y)) :=
        (attempts.counted ready.counted).afterHook.logged fun _ => rfl
      exact (called.rebuilt p).keeps keeps
    case unasked =>
      rw [refreshed, askedToExit_logged fun _ => rfl, log_afterHook settings,
        log_eq same attempts, asked]
      simp [not_exit]
    case system =>
      exact keeps.system.trans ((afterHook_system _ _).trans (attempts.system.trans ready.system))
    case rebuiltAt =>
      rw [afterHook_preconditioner, attempts.preconditioner] at rebuilt
      rw [advanced.iterations, advanced.state]
      exact ready.rebuiltAt.refresh rebuilt keeps.preconditioner

end Ready

lemma Started.settings {norm : α} (started : Started F s x norm it u) :
    u.settings = s.settings := by
  cases started with
  | mk vector allocated answer guarded value built keeps =>
    exact keeps.settings.trans ((afterHook_settings _ _).trans allocated.settings)

/-- A run begins in order, and a pass may follow unless the first hook has asked for the end. -/
lemma Started.ready {norm : α} (bound : s.system = some F) (started : Started F s x norm it u) :
    Underway F s x it.iterations it.state u.log ∧ (it.exited = false → Ready F s x it u) := by
  obtain ⟨books, -, -⟩ := started.booked
  cases started with
  | @mk v t u pre y r p tolerance vector allocated answer guarded value built keeps reach =>
    -- The log is empty up to the first hook, so the opening is all there is in it.
    have nothing : t.log = [] := allocated.log
    have same : t.settings = s.settings := allocated.settings
    have underway : Underway F s x 0 y u.log := by
      have opening : u.log = s.opening v y := by
        rw [keeps.log]
        simp [logged, log_afterHook same, nothing, opening]
      rw [opening]
      exact .start vector guarded
    refine ⟨underway, fun not_exited => ⟨underway, books.counted, ?_, ?_, ?_⟩⟩
    · rw [← books.exited, not_exited]
      simp
    · exact keeps.system.trans ((afterHook_system _ _).trans (allocated.system.trans bound))
    · rw [afterHook_preconditioner, allocated.preconditioner] at built
      obtain ⟨action, value, rfl⟩ := startAt_eq_ok built
      exact ⟨action, value, keeps.preconditioner⟩

end Pass

/-! ### A whole run -/

section Run

variable [CheckedScalar α] {F : NonlinearSystem α} {s t : Solver α} {x : Tensor α}

/-- The order of the calls of a run that ends with a solution. -/
def protocol (bound : s.system = some F) : Invariant F s x where
  during _ := Ready F s x
  after _ it t := Ending F s x it.iterations it.state t.log ∧ t.settings = s.settings
  failed _ := True
  failed_early _ := trivial
  failed_at_start _ _ _ _ := trivial
  start := by
    intro _ it t _ started _ begins
    rw [Bool.and_eq_true] at begins
    exact (started.ready bound).2 (by simpa using begins.2)
  stop_at_start started _ _ := ⟨.done (started.ready bound).1, started.settings⟩
  next same ready passed := (ready.pass same passed).2 rfl
  last same ready passed := ⟨(ready.pass same passed).1, passed.kept.2.trans same⟩
  failed_pass _ _ _ := trivial
  failed_limit _ := trivial
  failed_hook _ := trivial

/-- A run that ends with a solution has made its calls in order, and at last one of the hook behind
the end, with the state of the solution. In particular each call that stands at the opening or at
the end is made there only, the preconditioner is built anew once for each step that the solution
counts, and its action from before the run is not used. A step is looked for with the one that was
built at the state there; for a Jacobi preconditioner this is the division by the diagonal at that
state. -/
theorem solve_protocol {sol : Solution α} (bound : s.system = some F)
    (run : (solve x).run s = (.ok sol, t)) : ∃ log,
    Ending F s x sol.iterations sol.state log ∧
    sol.log = log ++ s.calling .postsolve sol.state ∧
    (∃ v y rest, initialState x = .ok v ∧ F.guard.value (Tensor.ofVec v) = .ok y ∧
      log = s.opening v y ++ rest ∧ ∀ e ∈ rest, e.InPass) ∧
    (refreshedStates sol.log).length = sol.iterations ∧
    (∀ action, ((solve x).run (s.withAction action)).1 = .ok sol) ∧
    ∀ before y out after, log = before ++ .attempted y out :: after →
      (recordedStates before).getLast? = some y ∧
      ∃ action, Looked F s (refreshedStates before).length y out action ∧
        ∀ diagonal action₀,
          s.preconditioner = { Preconditioner.jacobi diagonal with action := action₀ } →
          ∃ d, diagonal y = .ok d ∧ ∀ v,
            action v = Tensor.combine (· * ·) (d.map fun a => if a != 0 then 1 / a else 1) v := by
  obtain ⟨norm, it, v, answer, ⟨ending, same⟩, -, rfl, rfl⟩ :=
    ((protocol (x := x) bound).solve bound).result run
  -- All that is said of single calls is read off the grammar of the log.
  have ordered := ending.ordered
  refine ⟨v.log, ending, log_afterHook same, ordered.opens, ?_, fun action => ?_, ?_⟩
  · rw [log_afterHook same, refreshedStates_append, refreshedStates_calling, List.append_nil,
      ordered.refreshed]
  · rw [solve_withAction x s action, run]
  · intro before y out after split
    obtain ⟨current, action, looked⟩ := ordered.steps before y out after split
    exact ⟨current, action, looked, fun diagonal action₀ jacobi => looked.jacobi jacobi⟩

/-- An iteration towards the root of four that watches all hooks, with a Jacobi preconditioner. -/
def watched : Solver Float where
  settings := { singleStep with hooks := fun _ => some (.ok fun _ _ => .value .null) }
  system := some (squareMinus 4)
  preconditioner := .jacobi fun x => .ok (x.map (2 * ·))

theorem solve_protocol_watched : ∃ sol,
    ((solve ⟨[1], [3]⟩).run watched).1 = .ok sol ∧ (refreshedStates sol.log).length = 1 ∧
      Ending (squareMinus 4) watched ⟨[1], [3]⟩ 1 sol.state sol.log.dropLast := by
  have steps : (match ((solve ⟨[1], [3]⟩).run watched).1 with
      | .ok sol => sol.iterations
      | .error _ => 0) = 1 := by
    decide +kernel
  rcases run : (solve ⟨[1], [3]⟩).run watched with ⟨e | sol, t⟩
  · simp [run] at steps
  · rw [run] at steps
    obtain ⟨log, ending, calls, -, refreshed, -⟩ := solve_protocol (s := watched) rfl run
    refine ⟨sol, rfl, refreshed.trans steps, ?_⟩
    have last : sol.log.dropLast = log := by
      rw [calls]
      exact List.dropLast_concat
    have iterations : sol.iterations = 1 := steps
    rw [iterations] at ending
    rwa [last]

end Run

end Solver

end NewtonKrylov
