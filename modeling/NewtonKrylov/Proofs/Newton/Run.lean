import NewtonKrylov.Proofs.Newton.Parts
import NewtonKrylov.Proofs.Newton.Step

/-!
# The run of a Newton iteration

Nothing here depends on the arithmetic. One pass of an iteration does one of the four things that
`Passed` lists, or it fails and has recorded at most the step that it accepted. From this an
`Invariant` of a problem is carried through all runs of `solve`, those that fail included: it says
what holds before each pass, what after the last one, and what is left where a run fails, and its
fields are the obligations for one pass, for the start and for the end.
-/

namespace NewtonKrylov

/-- Settings without hooks. -/
def Settings.Unhooked {α : Type} (settings : Settings α) : Prop :=
  ∀ point, settings.hooks point = none

namespace Solver

/-! ### Hooks and the log -/

section Log

variable {α : Type}

/-- The solver with one more entry in its log. -/
def logged (s : Solver α) (e : Event α) : Solver α := { s with log := s.log ++ [e] }

/-- The answer of the hook at a point. -/
def hookAnswer (s : Solver α) (point : HookPoint) (x : Tensor α) : Except Error HookAnswer :=
  match s.settings.hooks point with
  | none => .ok (.value .null)
  | some hook => hook.map fun hook => hook (s.calls point) x

/-- The solver after the call of the hook at a point. -/
def afterHook (s : Solver α) (point : HookPoint) (x : Tensor α) : Solver α :=
  match s.settings.hooks point with
  | none => s
  | some _ =>
    { s with
      calls := fun p => if p = point then s.calls point + 1 else s.calls p
      log := s.log ++ [.hook point x] }

/-- The state that an entry of a log records: the one to start from, or one after a step. -/
def recorded? : Event α → Option (Tensor α)
  | .started x => some x
  | .refreshed x => some x
  | _ => none

/-- The states that an iteration has recorded. -/
def recordedStates (log : List (Event α)) : List (Tensor α) := log.filterMap recorded?

/-- No step was looked for. -/
def Unattempted (log : List (Event α)) : Prop := ∀ y out, .attempted y out ∉ log

variable {s : Solver α} (e : Event α) (point : HookPoint) (x : Tensor α)

@[simp] lemma recordedStates_logged :
    recordedStates (s.logged e).log = recordedStates s.log ++ (recorded? e).toList := by
  rw [logged, recordedStates, List.filterMap_append]
  cases h : recorded? e <;> simp [recordedStates, h]

@[simp] lemma recordedStates_afterHook :
    recordedStates (s.afterHook point x).log = recordedStates s.log := by
  unfold afterHook
  split
  · rfl
  · simp [recordedStates, recorded?]

lemma Unattempted.logged (none : Unattempted s.log) (other : ∀ y out, e ≠ .attempted y out) :
    Unattempted (s.logged e).log := by
  intro y out mem
  rcases List.mem_append.mp mem with old | new
  · exact none y out old
  · exact other y out (List.mem_singleton.mp new).symm

lemma Unattempted.afterHook (none : Unattempted s.log) :
    Unattempted (s.afterHook point x).log := by
  unfold Solver.afterHook
  split
  · exact none
  · exact Unattempted.logged (.hook point x) none (by simp)

@[simp] lemma logged_system : (s.logged e).system = s.system := rfl

@[simp] lemma logged_settings : (s.logged e).settings = s.settings := rfl

@[simp] lemma afterHook_system : (s.afterHook point x).system = s.system := by
  unfold afterHook
  split <;> rfl

@[simp] lemma afterHook_settings : (s.afterHook point x).settings = s.settings := by
  unfold afterHook
  split <;> rfl

@[simp] lemma logged_preconditioner : (s.logged e).preconditioner = s.preconditioner := rfl

@[simp] lemma afterHook_preconditioner :
    (s.afterHook point x).preconditioner = s.preconditioner := by
  unfold afterHook
  split <;> rfl

variable {point x}

lemma leads_record {Q : Unit → Solver α → Prop} {E : Solver α → Prop} :
    Leads (record e) s Q E ↔ Q ⟨⟩ (s.logged e) := Iff.rfl

/-- A hook that cannot be called leaves the solver. -/
lemma callHook_run : (callHook point x).run s = (s.hookAnswer point x,
    match s.hookAnswer point x with
    | .ok _ => s.afterHook point x
    | .error _ => s) := by
  unfold callHook hookAnswer afterHook
  refine (run_bind_of_ok (b := s) (t := s) rfl).trans ?_
  rcases s.settings.hooks point with _ | e | hook <;> rfl

lemma callHook_leads {Q : HookAnswer → Solver α → Prop} {E : Solver α → Prop} (failure : E s)
    (rest : ∀ a, s.hookAnswer point x = .ok a → Q a (s.afterHook point x)) :
    Leads (callHook point x) s Q E := by
  unfold Leads
  rw [callHook_run]
  cases answer : s.hookAnswer point x with
  | error e => exact failure
  | ok a => exact rest a answer

section Bound

variable {F : NonlinearSystem α}

lemma boundSystem_leads (bound : s.system = some F) {Q : NonlinearSystem α → Solver α → Prop}
    {E : Solver α → Prop} (rest : Q F s) : Leads boundSystem s Q E := by
  rw [boundSystem, leads_bind, leads_get, bound]
  exact rest

lemma evaluate_leads (bound : s.system = some F) {x : Tensor α} {Q : Tensor α → Solver α → Prop}
    {E : Solver α → Prop} (failure : E (s.logged (.evaluated x)))
    (rest : ∀ r, F.residual x = .ok r → Q r (s.logged (.evaluated x))) :
    Leads (evaluate x) s Q E := by
  rw [evaluate, leads_bind]
  refine boundSystem_leads bound ?_
  rw [leads_bind]
  cases value : F.residual x with
  | ok r => exact rest r value
  | error e => exact failure

lemma evaluate_run (bound : s.system = some F) {x r : Tensor α} (value : F.residual x = .ok r) :
    (evaluate x).run s = (.ok r, s.logged (.evaluated x)) := by
  unfold evaluate
  rw [run_bind_of_ok (boundSystem_run bound), value]
  rfl

end Bound

end Log

/-! ### One pass -/

section Pass

variable {α : Type} [CheckedScalar α]

variable (F : NonlinearSystem α) (s : Solver α) (it : Iteration α)

/-- A pass that comes to look for a step, with the answer of its first hook, what became of the
step, and the solver then. -/
structure Attempts (pre : HookAnswer) (out : StepOutcome α) (u : Solver α) : Prop where
  answer : s.hookAnswer .prestep it.state = .ok pre
  not_exit : pre.asksFor .exit = false
  attempted : ∃ r, F.residual it.state = .ok r ∧ Attempted F s.settings it.state r.norm out
  keeps : ∃ t, Keeps ((s.afterHook .prestep it.state).logged (.evaluated it.state)) t ∧
    u = t.logged (.attempted it.state out)
  looked : ∃ r t, F.residual it.state = .ok r ∧
    (newtonStep it.state r r.norm (it.iterations + 1)).run
      ((s.afterHook .prestep it.state).logged (.evaluated it.state)) = (.ok out, t)

/-- What a pass can come to. -/
inductive Passed : Iteration α × Bool → Solver α → Prop
  /-- The first hook asks for the end. -/
  | exitBefore {pre : HookAnswer} (answer : s.hookAnswer .prestep it.state = .ok pre)
      (exits : pre.asksFor .exit = true) :
      Passed ({ it with exited := true }, false) (s.afterHook .prestep it.state)
  /-- No step can be taken. -/
  | rejected {pre : HookAnswer} {out : StepOutcome α} {u : Solver α}
      (attempts : Attempts F s it pre out u) (none : out.state = none) :
      Passed ({ it with stalled := true, stepPending := false }, false) u
  /-- The second hook asks for the end before the step is recorded. -/
  | exitAfter {pre post : HookAnswer} {out : StepOutcome α} {u : Solver α} {y : Tensor α}
      (attempts : Attempts F s it pre out u) (some : out.state = some y)
      (answer : u.hookAnswer .poststep y = .ok post) (exits : post.asksFor .exit = true) :
      Passed ({ it with state := y, exited := true }, false) (u.afterHook .poststep y)
  | recorded {pre post : HookAnswer} {out : StepOutcome α} {u t : Solver α} {y : Tensor α}
      {p : Preconditioner α} {next : Iteration α} {limit : Limit}
      (attempts : Attempts F s it pre out u) (some : out.state = some y)
      (answer : u.hookAnswer .poststep y = .ok post) (not_exit : post.asksFor .exit = false)
      (rebuilt : (u.afterHook .poststep y).preconditioner.refreshAt y = .ok p)
      (keeps : Keeps { (u.afterHook .poststep y).logged (.refreshed y) with preconditioner := p } t)
      (advance : it.advance s.settings y out.norm out.size = .ok next)
      (max : s.settings.maxIterations = .ok limit) :
      Passed (next, next.goesOn limit || (pre.asksFor .notDone || post.asksFor .notDone)) t

/-- What recording a step of a given norm and size to a new state makes of an iteration. -/
structure Advanced (settings : Settings α) (it : Iteration α) (y : Tensor α) (norm size : α)
    (next : Iteration α) : Prop where
  state : next.state = y
  iterations : next.iterations = it.iterations + 1
  norms : next.norms = it.norms ++ [norm]
  exited : next.exited = it.exited
  stalled : next.stalled = it.stalled
  normPending : ∃ tolerance, settings.tolerance = .ok tolerance ∧
    next.normPending = !decide (norm < tolerance)
  stepPending : settings.stepTolerance = none ∧ next.stepPending = it.stepPending ∨
    ∃ relative scale, settings.stepTolerance = some (.ok relative) ∧ y.maxNorm = .ok scale ∧
      next.stepPending = decide (relative * scale ≤ size)

/-- What a pass that fails leaves in the log. It may have recorded a step that it has accepted. -/
def FailedPass (t : Solver α) : Prop :=
  recordedStates t.log = recordedStates s.log ∨
    ∃ pre out u y, Attempts F s it pre out u ∧ out.state = some y ∧
      recordedStates t.log = recordedStates s.log ++ [y]

variable {F s it}

lemma advanced_of_eq_ok {settings : Settings α} {next : Iteration α} {y : Tensor α} {norm size : α}
    (advance : it.advance settings y norm size = .ok next) :
    Advanced settings it y norm size next := by
  obtain ⟨tolerance, reach, advance⟩ := bind_eq_ok.mp advance
  cases given : settings.stepTolerance with
  | none =>
    rw [given] at advance
    cases advance
    exact ⟨rfl, rfl, rfl, rfl, rfl, ⟨tolerance, reach, rfl⟩, .inl ⟨given, rfl⟩⟩
  | some relative =>
    rw [given] at advance
    obtain ⟨scale, largest, advance⟩ := bind_eq_ok.mp advance
    obtain ⟨a, rfl, ⟨⟩⟩ := bind_eq_ok.mp advance
    exact ⟨rfl, rfl, rfl, rfl, rfl, ⟨tolerance, reach, rfl⟩, .inr ⟨a, scale, given, largest, rfl⟩⟩

section Attempts

variable {pre : HookAnswer} {out : StepOutcome α} {u : Solver α}

lemma Attempts.log_eq (attempts : Attempts F s it pre out u) :
    u.log = (((s.afterHook .prestep it.state).logged (.evaluated it.state)).logged
      (.attempted it.state out)).log := by
  obtain ⟨t, kept, rfl⟩ := attempts.keeps
  rw [logged, kept.log]
  rfl

lemma Attempts.log (attempts : Attempts F s it pre out u) :
    recordedStates u.log = recordedStates s.log := by
  rw [attempts.log_eq]
  simp [recorded?]

lemma Attempts.settings (attempts : Attempts F s it pre out u) : u.settings = s.settings := by
  obtain ⟨t, kept, rfl⟩ := attempts.keeps
  simp [kept.settings]

lemma Attempts.system (attempts : Attempts F s it pre out u) : u.system = s.system := by
  obtain ⟨t, kept, rfl⟩ := attempts.keeps
  simp [kept.system]

lemma Attempts.preconditioner (attempts : Attempts F s it pre out u) :
    u.preconditioner = s.preconditioner := by
  obtain ⟨t, kept, rfl⟩ := attempts.keeps
  simp [kept.preconditioner]

end Attempts

/-- A pass leaves the problem and the settings. -/
lemma Passed.kept {outcome : Iteration α × Bool} {t : Solver α} (passed : Passed F s it outcome t) :
    t.system = s.system ∧ t.settings = s.settings := by
  cases passed with
  | exitBefore answer exits => simp
  | rejected attempts none => exact ⟨attempts.system, attempts.settings⟩
  | exitAfter attempts some answer exits => simp [attempts.system, attempts.settings]
  | recorded attempts some answer not_exit rebuilt keeps advance max =>
    exact ⟨keeps.system.trans ((afterHook_system _ _).trans attempts.system),
      keeps.settings.trans ((afterHook_settings _ _).trans attempts.settings)⟩

lemma reportNewton_stays (step : ℤ) (norm size : α) (x : Tensor α) (heading : Bool) :
    Stays (reportNewton step norm size x heading) := by
  refine .bind .get fun s => ?_
  cases s.settings.newtonDirectory with
  | none => exact .pure _
  | some directory => exact .bind (.lift _) fun _ => .report _

/-- One pass does one of four things or fails. -/
lemma pass_leads (bound : s.system = some F) :
    Leads (pass it) s (Passed F s it) (FailedPass F s it) := by
  unfold pass
  rw [leads_bind]
  refine callHook_leads (.inl rfl) fun pre answer => ?_
  split_ifs with exits
  · exact .exitBefore answer exits
  rw [leads_bind]
  refine evaluate_leads (F := F) (by simpa using bound) (.inl (by simp [recorded?]))
    fun r value => ?_
  refine Leads.bind (((newtonStep_leads (F := F) (by simpa using bound) it.state r r.norm _).and
    (leads_run _)).mono (fun _ _ => id) fun t kept => .inl (by simp [kept.log, recorded?])) ?_
  rintro out t ⟨⟨attempted, kept⟩, run⟩
  rw [leads_bind, leads_record]
  have attempts : Attempts F s it pre out (t.logged (.attempted it.state out)) :=
    ⟨answer, by simpa using exits, ⟨r, value, by simpa using attempted⟩, ⟨t, kept, rfl⟩,
      r, t, value, run⟩
  cases moved : out.state with
  | none => exact .rejected attempts moved
  | some y =>
    dsimp only
    rw [leads_bind]
    refine callHook_leads (.inl attempts.log) fun post answer => ?_
    split_ifs with exits
    · exact .exitAfter attempts moved answer exits
    -- The step is recorded before the preconditioner is built anew, so a pass that fails from here
    -- on has recorded it.
    have failure (v : Solver α) (log : v.log = (((t.logged (.attempted it.state
        out)).afterHook .poststep y).logged (.refreshed y)).log) :
        FailedPass F s it v :=
      .inr ⟨pre, out, _, y, attempts, moved, by
        rw [log, recordedStates_logged, recordedStates_afterHook, attempts.log]
        rfl⟩
    rw [leads_bind, leads_record, leads_bind, leads_get]
    refine .lift_bind (failure _ rfl) fun p rebuilt => ?_
    rw [leads_bind, leads_modify, leads_bind]
    refine (reportNewton_stays _ out.norm out.size y false _).mono ?_
      fun _ kept => failure _ kept.log
    intro _ v kept
    rw [leads_bind, leads_get]
    -- The settings are read again at the end of a pass. They are still those from before it.
    have settings : v.settings = s.settings :=
      kept.settings.trans ((afterHook_settings _ _).trans attempts.settings)
    rw [settings]
    refine .lift_bind (failure _ kept.log) fun next advance => ?_
    refine .lift_bind (failure _ kept.log) fun limit max => ?_
    exact .recorded attempts moved answer (by simpa using exits) rebuilt kept advance max

end Pass

/-! ### A whole run -/

section Run

variable {α : Type} [CheckedScalar α] {F : NonlinearSystem α} {s : Solver α}

omit [CheckedScalar α] in
lemma allocate_stays (n : ℤ) : Stays (allocate n : SolverM α Bool) := by
  intro s
  unfold allocate
  rw [leads_bind, leads_get]
  refine .lift_bind (.refl s) fun limit _ => ?_
  extract_lets steps fits
  split_ifs
  · exact .refl s
  · refine .lift_bind (.refl s) fun size _ => .lift_bind (.refl s) fun ws _ => ?_
    exact ⟨some ws, s.files, rfl⟩

/-- Where an iteration from `x` begins, with the residual norm there and the solver then. -/
inductive Started (F : NonlinearSystem α) (s : Solver α) (x : Tensor α) :
    α → Iteration α → Solver α → Prop
  | mk {v : Vec α} {t u : Solver α} {pre : HookAnswer} {y r : Tensor α} {p : Preconditioner α}
      {tolerance : α} (vector : initialState x = .ok v) (allocated : Keeps { s with log := [] } t)
      (answer : t.hookAnswer .presolve (Tensor.ofVec v) = .ok pre)
      (guarded : F.guard.value (Tensor.ofVec v) = .ok y) (value : F.residual y = .ok r)
      (built : (t.afterHook .presolve (Tensor.ofVec v)).preconditioner.startAt y = .ok p)
      (keeps : Keeps { (((t.afterHook .presolve (Tensor.ofVec v)).logged
        (.guarded (Tensor.ofVec v))).logged (.evaluated y)).logged (.started y) with
          preconditioner := p } u)
      (reach : s.settings.tolerance = .ok tolerance) :
      Started F s x r.norm
        { state := y
          normPending := !decide (r.norm ≤ tolerance)
          exited := pre.asksFor .exit } u

lemma Started.log {x : Tensor α} {norm : α} {it : Iteration α} {u : Solver α}
    (started : Started F s x norm it u) : recordedStates u.log = [it.state] := by
  cases started with
  | @mk _ t _ _ y _ _ _ _ allocated _ _ _ _ keeps =>
    have nothing : recordedStates t.log = [] := by
      rw [allocated.log]
      rfl
    rw [keeps.log]
    simp [nothing, recorded?]

lemma Started.value {x : Tensor α} {norm : α} {it : Iteration α} {u : Solver α}
    (started : Started F s x norm it u) : ∃ r, F.residual it.state = .ok r ∧ r.norm = norm := by
  cases started with
  | mk vector allocated answer guarded value => exact ⟨_, value, rfl⟩

lemma Started.norms {x : Tensor α} {norm : α} {it : Iteration α} {u : Solver α}
    (started : Started F s x norm it u) : it.norms = [] := by
  cases started with
  | mk => rfl

lemma Started.iterations {norm : α} {it : Iteration α} {t : Solver α}
    (started : Started F s x norm it t) : it.iterations = 0 := by
  cases started with
  | mk => rfl

lemma Started.unattempted {norm : α} {it : Iteration α} {t : Solver α}
    (started : Started F s x norm it t) : Unattempted t.log := by
  cases started with
  | @mk v t _ _ y r p _ vector allocated answer guarded value built keeps reach =>
    have empty : Unattempted t.log := by
      rw [allocated.log]
      exact nofun
    rw [keeps.log]
    have guarding := (empty.afterHook .presolve (Tensor.ofVec v)).logged
      (.guarded (Tensor.ofVec v)) (by simp)
    exact (guarding.logged (.evaluated y) (by simp)).logged (.started y) (by simp)

lemma Started.kept {x : Tensor α} {norm : α} {it : Iteration α} {u : Solver α}
    (started : Started F s x norm it u) : u.system = s.system ∧ u.settings = s.settings := by
  cases started with
  | mk _ allocated _ _ _ _ keeps =>
    exact ⟨keeps.system.trans ((afterHook_system _ _).trans allocated.system),
      keeps.settings.trans ((afterHook_settings _ _).trans allocated.settings)⟩

/-- What a run that fails before its first pass leaves in the log. It may have recorded the state to
start from. -/
structure FailedStart (F : NonlinearSystem α) (x : Tensor α) (t : Solver α) : Prop where
  recorded : recordedStates t.log = [] ∨ ∃ v y r, initialState x = .ok v ∧
    F.guard.value (Tensor.ofVec v) = .ok y ∧ F.residual y = .ok r ∧ recordedStates t.log = [y]
  unattempted : Unattempted t.log

/-- What comes before the first pass leads to the start of an iteration. -/
lemma prepare_leads (bound : s.system = some F) (x : Tensor α) :
    Leads (prepare x) s
      (fun o t => Started F s x o.norm o.start t ∧ s.settings.maxIterations = .ok o.limit ∧
        o.room = o.limit.room + s.settings.extraPasses)
      (FailedStart F x) := by
  unfold prepare outset
  rw [leads_bind, leads_modify, leads_bind, leads_get]
  extract_lets go_on
  split_ifs with unbound
  · simp [bound] at unbound
  refine .lift_bind ⟨.inl rfl, nofun⟩ fun v vector => ?_
  rw [leads_bind]
  refine (allocate_stays v.length { s with log := [] }).mono (fun _ t allocated => ?_)
    fun t allocated => ⟨.inl (by rw [allocated.log]; rfl), by rw [allocated.log]; exact nofun⟩
  have nothing : recordedStates t.log = [] := by
    rw [allocated.log]
    rfl
  have unattempted : Unattempted t.log := by
    rw [allocated.log]
    exact nofun
  extract_lets x₀
  rw [leads_bind]
  refine callHook_leads ⟨.inl nothing, unattempted⟩ fun pre answer => ?_
  rw [leads_bind]
  refine boundSystem_leads (F := F) (by simpa [allocated.system] using bound) ?_
  rw [leads_bind, leads_record]
  have asked : Unattempted (t.afterHook .presolve x₀).log := unattempted.afterHook _ _
  have guarding := asked.logged (.guarded x₀) (by simp)
  refine .lift_bind ⟨.inl (by simp [nothing, recorded?]), guarding⟩ fun y guarded => ?_
  rw [leads_bind]
  have evaluating := guarding.logged (.evaluated y) (by simp)
  refine evaluate_leads (F := F) (by simpa [allocated.system] using bound)
    ⟨.inl (by simp [nothing, recorded?]), evaluating⟩ fun r value => ?_
  rw [leads_bind, leads_record, leads_bind, leads_get]
  -- The initial state is recorded from here on.
  have begun {t' : Solver α} (log : t'.log = ((((t.afterHook .presolve x₀).logged
      (.guarded x₀)).logged (.evaluated y)).logged (.started y)).log) : FailedStart F x t' := by
    constructor
    · exact .inr ⟨v, y, r, vector, guarded, value, by rw [log]; simp [nothing, recorded?]⟩
    · rw [log]
      exact evaluating.logged (.started y) (by simp)
  refine .lift_bind (begun rfl) fun p built => ?_
  rw [leads_bind, leads_modify, leads_bind]
  refine (reportNewton_stays 0 r.norm 0 y true _).mono (fun _ u keeps => ?_)
    fun u keeps => begun keeps.log
  rw [leads_bind, leads_get]
  extract_lets settings
  refine .lift_bind (begun keeps.log) fun tolerance reach => ?_
  refine .lift_bind (begun keeps.log) fun limit max => ?_
  have same : u.settings = s.settings :=
    keeps.settings.trans ((afterHook_settings _ _).trans allocated.settings)
  -- The settings are read once more behind the report.
  unfold settings at reach max ⊢
  rw [same] at reach max ⊢
  exact ⟨.mk vector allocated answer guarded value built keeps reach, max, rfl⟩

/-- A property of the runs from `x`: of the residual norm at the start, the iteration and the
solver. It holds before each pass, after the last one, or where a run fails. -/
structure Invariant (F : NonlinearSystem α) (s : Solver α) (x : Tensor α) where
  during : α → Iteration α → Solver α → Prop
  after : α → Iteration α → Solver α → Prop
  failed : Solver α → Prop
  failed_early {t : Solver α} (log : recordedStates t.log = []) : failed t
  failed_at_start {v : Vec α} {y r : Tensor α} {t : Solver α} (vector : initialState x = .ok v)
    (guarded : F.guard.value (Tensor.ofVec v) = .ok y) (value : F.residual y = .ok r)
    (log : recordedStates t.log = [y]) : failed t
  start {norm : α} {it : Iteration α} {t : Solver α} {limit : Limit}
    (started : Started F s x norm it t) (max : s.settings.maxIterations = .ok limit)
    (begins : (it.goesOn limit && !it.exited) = true) : during norm it t
  stop_at_start {norm : α} {it : Iteration α} {t : Solver α} {limit : Limit}
    (started : Started F s x norm it t) (max : s.settings.maxIterations = .ok limit)
    (begins : (it.goesOn limit && !it.exited) = false) : after norm it t
  next {norm : α} {it it' : Iteration α} {t t' : Solver α} (settings : t.settings = s.settings)
    (holds : during norm it t) (passed : Passed F t it (it', true) t') : during norm it' t'
  last {norm : α} {it it' : Iteration α} {t t' : Solver α} (settings : t.settings = s.settings)
    (holds : during norm it t) (passed : Passed F t it (it', false) t') : after norm it' t'
  failed_pass {norm : α} {it : Iteration α} {t t' : Solver α} (settings : t.settings = s.settings)
    (holds : during norm it t) (fails : FailedPass F t it t') : failed t'
  failed_limit {norm : α} {it : Iteration α} {t : Solver α} (holds : during norm it t) : failed t
  failed_hook {norm : α} {it : Iteration α} {t : Solver α} (holds : after norm it t) : failed t

omit [CheckedScalar α] in
/-- Behind the last pass only the last hook is called. -/
lemma conclude_leads (norm : α) (it : Iteration α) :
    Leads (conclude norm it) s
      (fun sol t => ∃ answer, s.hookAnswer .postsolve it.state = .ok answer ∧
        t = s.afterHook .postsolve it.state ∧
        sol = ⟨it.state, it.iterations, norm, it.norms, it.converged, it.reason, answer, t.log⟩)
      (· = s) := by
  unfold conclude
  rw [leads_bind]
  exact callHook_leads rfl fun answer called => ⟨answer, called, rfl, rfl⟩

namespace Invariant

variable {x : Tensor α}

/-- The rule for passes: what every pass hands on to the next holds until the last. -/
lemma passes (inv : Invariant F s x) (n : ℕ) {norm : α} {it : Iteration α} {t : Solver α}
    (bound : t.system = some F) (settings : t.settings = s.settings)
    (holds : inv.during norm it t) : Leads (Solver.passes n it) t (inv.after norm) inv.failed := by
  -- The induction is on the passes that are left. It is the invariant that a pass hands on.
  induction n generalizing t it with
  | zero => exact inv.failed_limit holds
  | succ n ih =>
    rw [Solver.passes]
    refine Leads.bind ((pass_leads bound).mono (fun _ _ => id)
      fun _ fails => inv.failed_pass settings holds fails) ?_
    rintro ⟨it', again⟩ t' passed
    obtain ⟨system', settings'⟩ := passed.kept
    cases again with
    | true =>
      exact ih (system'.trans bound) (settings'.trans settings) (inv.next settings holds passed)
    | false => exact inv.last settings holds passed

/-- A run that has ended with a solution. -/
def Finished (inv : Invariant F s x) (sol : Solution α) (t : Solver α) : Prop :=
  ∃ norm it v answer, inv.after norm it v ∧ v.hookAnswer .postsolve it.state = .ok answer ∧
    t = v.afterHook .postsolve it.state ∧
    sol = ⟨it.state, it.iterations, norm, it.norms, it.converged, it.reason, answer, t.log⟩

/-- The rule for a whole run. -/
theorem solve (inv : Invariant F s x) (bound : s.system = some F) :
    Leads (Solver.solve x) s inv.Finished inv.failed := by
  rw [solve_eq]
  have begun (t : Solver α) (fails : FailedStart F x t) : inv.failed t := by
    rcases fails.recorded with early | ⟨v, y, r, vector, guarded, value, log⟩
    · exact inv.failed_early early
    · exact inv.failed_at_start vector guarded value log
  refine ((prepare_leads bound x).mono (fun _ _ => id) begun).bind ?_
  rintro o t ⟨started, max, -⟩
  -- However the passes end, the last hook is called in the same way.
  have finished {it : Iteration α} {v : Solver α} (holds : inv.after o.norm it v) :
      Leads (conclude o.norm it) v (Finished inv) inv.failed := by
    refine (conclude_leads o.norm it).mono ?_ fun _ same => same ▸ inv.failed_hook holds
    rintro sol u ⟨answer, called, log, solution⟩
    exact ⟨o.norm, it, v, answer, holds, called, log, solution⟩
  obtain ⟨system, settings⟩ := started.kept
  split_ifs with begins
  · have holds : inv.during o.norm o.start t := inv.start started max begins
    exact (inv.passes o.room (system.trans bound) settings holds).bind fun it v holds =>
      finished holds
  · have holds : inv.after o.norm o.start t :=
      inv.stop_at_start started max (Bool.eq_false_iff.mpr begins)
    exact finished holds

end Invariant

end Run

end Solver

end NewtonKrylov
