import NewtonKrylov.Proofs.Newton.Termination

/-!
# Rejected steps

A step is rejected if it increases the norm and the line search along it ends at a scale where the
norm is not smaller, or that is not positive. With undefined norms every comparison is false, so
such a step goes through the search, and a search that ends at an undefined norm rejects it.

A rejected step leaves no trace: the run ends at the state and with the statistics and the
preconditioner from before it, the hook behind a step is not called, and the solution counts as one
only if the last test of the norm had been met. The comparisons need no law, so this is so in every
arithmetic.
-/

namespace NewtonKrylov

namespace Solver

variable {α : Type} [CheckedScalar α] {F : NonlinearSystem α} {s t u v : Solver α} {x : Tensor α}
  {k : ℕ} {it : Iteration α}

/-! ### The verdict on a step -/

section Verdict

variable (F) (settings : Settings α) (x dx : Tensor α) (norm fullNorm : α)

/-- No scale of a step is found at which the norm decreases. -/
def Rejects : Prop :=
  ¬ fullNorm ≤ norm ∧ ∃ o, searchAlong F settings x dx norm fullNorm = .ok o ∧
    ¬ (o.last.norm < norm ∧ 0 < o.last.scale)

/-- The step that is taken of a proposed one. -/
inductive Accepts : Tensor α → Prop
  | full (le : fullNorm ≤ norm) : Accepts dx
  | scaled {o : LineSearch.Outcome α} (increased : ¬ fullNorm ≤ norm)
      (search : searchAlong F settings x dx norm fullNorm = .ok o) (lt : o.last.norm < norm)
      (positive : 0 < o.last.scale) : Accepts (dx.smul o.last.scale)

variable {F settings x dx norm fullNorm} {out : StepOutcome α}

lemma Settled.state_eq_none_iff (settled : Settled F settings x dx norm fullNorm out) :
    out.state = none ↔ Rejects F settings x dx norm fullNorm := by
  cases settled with
  | full le => simp [Rejects, le]
  | searched increased search lt positive => simp [Rejects, search, lt, positive]
  | rejected increased search fails =>
    simpa [Rejects, increased, search] using fun lt positive => fails ⟨lt, positive⟩

/-- A rejected step hands on the norm from before it. -/
lemma Settled.of_none (settled : Settled F settings x dx norm fullNorm out)
    (none : out.state = none) : out.norm = norm ∧ out.size = 0 := by
  cases settled with
  | full => cases none
  | searched => cases none
  | rejected => exact ⟨rfl, rfl⟩

/-- State, norm and size belong to the same step. -/
lemma Settled.of_some (settled : Settled F settings x dx norm fullNorm out)
    (value : normAfter F x dx = .ok fullNorm) {y : Tensor α} (taken : out.state = some y) :
    ∃ d, Accepts F settings x dx norm fullNorm d ∧ Tensor.combine (· - ·) x d = .ok y ∧
      HasNorm F y out.norm ∧ d.maxNorm = .ok out.size := by
  cases settled with
  | full le moved largest =>
    cases taken
    exact ⟨dx, .full le, moved, hasNorm_of_normAfter value moved, largest⟩
  | searched increased search lt positive moved largest =>
    cases taken
    exact ⟨_, .scaled increased search lt positive, moved,
      hasNorm_of_normAfter (normAfter_of_searchAlong search) moved, largest⟩
  | rejected => cases taken

end Verdict

/-! ### From a pass back to the start of its run -/

section Passes

variable {o : Outset α} {t₀ : Solver α}

lemma BeginsPass.exists_prepared (reached : BeginsPass s x k it t) :
    ∃ o t₀, (prepare x).run s = (.ok o, t₀) ∧ o.begins = true := by
  induction reached with
  | start prepared begins => exact ⟨_, _, prepared, begins⟩
  | next _ _ ih => exact ih

/-- What is known of a run in which a pass begins. -/
lemma BeginsPass.exists_outset (bound : s.system = some F) (reached : BeginsPass s x k it t) :
    ∃ o t₀, (prepare x).run s = (.ok o, t₀) ∧ o.begins = true ∧
      o.room = o.limit.room + s.settings.extraPasses ∧ s.settings.maxIterations = .ok o.limit ∧
      Pending F s o.limit k it t := by
  obtain ⟨o, t₀, prepared, begins⟩ := reached.exists_prepared
  obtain ⟨-, max, room⟩ := (prepare_leads bound x).result prepared
  exact ⟨o, t₀, prepared, begins, room, max, reached.pending bound max⟩

/-- The passes of a run lead to what those from a later pass on lead to. -/
lemma BeginsPass.loops (reached : BeginsPass s x k it t)
    (prepared : (prepare x).run s = (.ok o, t₀)) {r : Except Error (Iteration α)}
    (loops : Loops it t r u) : Loops o.start t₀ r u := by
  -- The induction is on the passes before this one, each of which is put in front of the loop.
  induction reached with
  | start prepared' _ =>
    rw [prepared] at prepared'
    cases prepared'
    exact loops
  | next _ again ih => exact ih (.again again loops)

lemma BeginsPass.passes_run (reached : BeginsPass s x k it t)
    (prepared : (prepare x).run s = (.ok o, t₀)) (n : ℕ) :
    (passes (k + n) o.start).run t₀ = (passes n it).run t := by
  induction reached generalizing n with
  | start prepared' _ =>
    rw [prepared] at prepared'
    cases prepared'
    rw [Nat.zero_add]
  | @next k _ _ _ _ _ again ih =>
    -- The pass in between is the first one of those that are left to the pass before it.
    rw [Nat.add_assoc, Nat.add_comm 1 n, ih (n + 1)]
    exact run_bind_of_ok again

/-- Where a pass begins, the flag for norms is the test of the last one. -/
lemma BeginsPass.normPending_eq_false (bound : s.system = some F) (reached : BeginsPass s x k it t)
    (prepared : (prepare x).run s = (.ok o, t₀)) :
    it.normPending = false ↔ NormReached s.settings o.norm it := by
  obtain ⟨started, max, -⟩ := (prepare_leads bound x).result prepared
  cases reached with
  | start prepared' _ =>
    rw [prepared] at prepared'
    cases prepared'
    exact started.booked.1.normPending
  | next reached again =>
    have pending := reached.pending bound max
    have passed := (pass_leads pending.system).result again
    obtain ⟨_, _, _, hands⟩ := passed.handsOn pending.counted pending.settings max
    obtain ⟨y, -, advanced⟩ := hands.advanced
    exact advanced.normPending_eq_false

end Passes

/-! ### What a rejected step leaves alone -/

section Untouched

variable {α : Type} {s t u : Solver α}

/-- From `s` to `t` the preconditioner was not built anew, the hook behind a step was not called,
and no state was recorded. -/
structure Untouched (s t : Solver α) : Prop where
  preconditioner : t.preconditioner = s.preconditioner
  calls : t.calls .poststep = s.calls .poststep
  callsAt : callsAt .poststep t.log = callsAt .poststep s.log
  recordedStates : recordedStates t.log = recordedStates s.log

lemma Untouched.trans (first : Untouched s t) (second : Untouched t u) : Untouched s u where
  preconditioner := second.preconditioner.trans first.preconditioner
  calls := second.calls.trans first.calls
  callsAt := second.callsAt.trans first.callsAt
  recordedStates := second.recordedStates.trans first.recordedStates

lemma Keeps.untouched (kept : Keeps s t) : Untouched s t where
  preconditioner := kept.preconditioner
  calls := by rw [kept.calls]
  callsAt := by rw [kept.log]
  recordedStates := by rw [kept.log]

lemma untouched_logged {e : Event α} (no_call : callAt? .poststep e = none)
    (no_record : recorded? e = none) : Untouched s (s.logged e) where
  preconditioner := rfl
  calls := rfl
  callsAt := by simp [no_call]
  recordedStates := by simp [no_record]

lemma untouched_afterHook {point : HookPoint} {x : Tensor α} (other : point ≠ .poststep) :
    Untouched s (s.afterHook point x) where
  preconditioner := afterHook_preconditioner point x
  calls := by
    unfold afterHook
    split
    · rfl
    · exact if_neg other.symm
  callsAt := callsAt_afterHook_of_ne other
  recordedStates := recordedStates_afterHook point x

end Untouched

/-! ### The pass of a rejected step -/

section Pass

variable {r : Tensor α} {out : StepOutcome α}

/-- In the run from `s` and `x` pass `k` begins at the iteration `it` with the solver `t`. It looks
for a step, since the first hook does not ask for the end, and comes to `out` and the solver `v`. -/
structure SeeksStep (F : NonlinearSystem α) (s : Solver α) (x : Tensor α) (k : ℕ) (it : Iteration α)
    (t : Solver α) (r : Tensor α) (out : StepOutcome α) (v : Solver α) : Prop where
  begins : BeginsPass s x k it t
  goes_on : ∃ pre, t.hookAnswer .prestep it.state = .ok pre ∧ pre.asksFor .exit = false
  value : F.residual it.state = .ok r
  run : (newtonStep it.state r r.norm (it.iterations + 1)).run (t.beforeStep it.state)
    = (.ok out, v)

lemma SeeksStep.keeps (seeks : SeeksStep F s x k it t r out v) (bound : t.system = some F) :
    Keeps (t.beforeStep it.state) v :=
  ((newtonStep_leads (s := t.beforeStep it.state) (by simpa using bound) it.state r r.norm
    (it.iterations + 1)).result seeks.run).2

/-- The pass ends, and no other one follows. -/
lemma SeeksStep.pass_run (seeks : SeeksStep F s x k it t r out v) (bound : t.system = some F)
    (none : out.state = none) :
    (pass it).run t = (.ok ({ it with stalled := true, stepPending := false }, false),
      v.logged (.attempted it.state out)) := by
  obtain ⟨pre, answer, goes_on⟩ := seeks.goes_on
  have called : (callHook .prestep it.state).run t = (.ok pre, t.afterHook .prestep it.state) := by
    rw [callHook_run, answer]
  have evaluated := evaluate_run (s := t.afterHook .prestep it.state) (by simpa using bound)
    seeks.value
  unfold pass
  rw [run_bind_of_ok called, if_neg (by simpa using goes_on), run_bind_of_ok evaluated]
  refine (run_bind_of_ok seeks.run).trans ?_
  refine (run_bind_of_ok (b := ()) (t := v.logged (.attempted it.state out)) rfl).trans ?_
  rw [none]
  rfl

end Pass

/-! ### The run of a rejected step -/

section Run

variable {r : Tensor α} {out : StepOutcome α}

omit [CheckedScalar α] in
lemma conclude_run (norm : α) {last : Iteration α} {answer : HookAnswer}
    (called : u.hookAnswer .postsolve last.state = .ok answer) :
    (conclude norm last).run u = (.ok ⟨last.state, last.iterations, norm, last.norms,
      last.converged, last.reason, answer, (u.afterHook .postsolve last.state).log⟩,
      u.afterHook .postsolve last.state) := by
  have answered : (callHook .postsolve last.state).run u
      = (.ok answer, u.afterHook .postsolve last.state) := by
    rw [callHook_run, called]
  unfold conclude
  rw [run_bind_of_ok answered]
  rfl

omit [CheckedScalar α] in
/-- A hook that can be called has an answer. -/
lemma exists_hookAnswer {point : HookPoint}
    (callable : ∀ e, u.settings.hooks point ≠ some (.error e)) (y : Tensor α) :
    ∃ answer, u.hookAnswer point y = .ok answer := by
  unfold hookAnswer
  match given : u.settings.hooks point with
  | none => exact ⟨_, rfl⟩
  | some (.ok hook) => exact ⟨_, rfl⟩
  | some (.error e) => exact absurd given (callable e)

/-- What a run that ends with a rejected step returns. -/
structure Returns (s : Solver α) (it : Iteration α) (sol : Solution α) : Prop where
  state : sol.state = it.state
  iterations : sol.iterations = it.iterations
  norms : sol.norms = it.norms
  converged : sol.converged = true ↔ NormReached s.settings sol.initialNorm it

/-- A rejected step is the last one of its run. -/
lemma SeeksStep.ends (seeks : SeeksStep F s x k it t r out v) (bound : s.system = some F)
    (callable : ∀ e, s.settings.hooks .postsolve ≠ some (.error e)) (none : out.state = none) :
    ∃ sol w, Ends s x (.ok sol) w ∧
      (s.insistences t.log k ≤ s.settings.extraPasses → s.HasPatience k →
        (solve x).run s = (.ok sol, w)) ∧
      Returns s it sol ∧ Untouched t w := by
  obtain ⟨o, t₀, prepared, begins, room, max, pending⟩ := seeks.begins.exists_outset bound
  have kept := seeks.keeps pending.system
  have stops := seeks.pass_run pending.system none
  set last : Iteration α := { it with stalled := true, stepPending := false }
  set u := v.logged (.attempted it.state out)
  have settings : u.settings = s.settings :=
    kept.settings.trans (beforeStep_settings.trans pending.settings)
  obtain ⟨answer, called⟩ := exists_hookAnswer (u := u) (by rwa [settings]) last.state
  have concluded := conclude_run o.norm called
  refine ⟨_, _, .behindPasses prepared begins (seeks.begins.loops prepared (.stop stops)) concluded,
    fun few patient => ?_, ⟨rfl, rfl, rfl, ?_⟩, ?_⟩
  · -- The program allows for so many passes that this one is among them.
    obtain ⟨n, enough⟩ := Nat.exists_eq_add_of_lt (pending.lt_room_add max few patient)
    have passed : (passes o.room o.start).run t₀ = (.ok last, u) := by
      rw [room, enough, Nat.add_assoc, seeks.begins.passes_run prepared]
      exact run_bind_of_ok stops
    rw [solve_run_of_prepared prepared, begins]
    exact (run_bind_of_ok passed).trans concluded
  · rw [← seeks.begins.normPending_eq_false bound prepared]
    simp [Iteration.converged, last]
  · -- Up to the end there are the hook in front of the step, two entries in the log, the looking
    -- for a step, and the last hook.
    have looking : Untouched t (t.beforeStep it.state) :=
      (untouched_afterHook (by simp)).trans (untouched_logged rfl rfl)
    have settling : Untouched v u := untouched_logged rfl rfl
    exact ((looking.trans kept.untouched).trans settling).trans (untouched_afterHook (by simp))

/-- A step is rejected exactly if it increases the norm and the line search along it does not end at
a positive scale where the norm is smaller. The run then ends, and what it returns is what was there
before the step. It is the run of the program if hooks have asked for no more passes than it allows
for, and if it has the patience for so many passes, which only an iteration without a limit may
lack. If the step is accepted, the new state, its norm and the size belong to the same step. -/
theorem newtonStep_rejects (bound : s.system = some F)
    (callable : ∀ e, s.settings.hooks .postsolve ≠ some (.error e))
    (seeks : SeeksStep F s x k it t r out v) : ∃ dx fullNorm,
    Proposes F (t.beforeStep it.state) it.state r r.norm (it.iterations + 1) dx fullNorm ∧
      (out.state = none ↔ Rejects F s.settings it.state dx r.norm fullNorm) ∧
      (out.state = none → out.norm = r.norm ∧ out.size = 0 ∧ ∃ sol w,
        Ends s x (.ok sol) w ∧
        (s.insistences t.log k ≤ s.settings.extraPasses → s.HasPatience k →
          (solve x).run s = (.ok sol, w)) ∧
        Returns s it sol ∧ Untouched t w) ∧
      ∀ y, out.state = some y → ∃ d, Accepts F s.settings it.state dx r.norm fullNorm d ∧
        Tensor.combine (· - ·) it.state d = .ok y ∧ HasNorm F y out.norm ∧
        d.maxNorm = .ok out.size := by
  obtain ⟨_, _, -, -, -, -, pending⟩ := seeks.begins.exists_outset bound
  obtain ⟨-, dx, fullNorm, proposes, settled⟩ :=
    (newtonStep_settles (s := t.beforeStep it.state) (by simpa using pending.system) it.state r
      r.norm (it.iterations + 1)).result seeks.run
  -- What is settled is settled by the settings of the run, and by the residual norm at the state of
  -- the pass.
  rw [beforeStep_settings, pending.settings] at settled
  refine ⟨dx, fullNorm, proposes, settled.state_eq_none_iff, fun none => ?_,
    fun y taken => settled.of_some proposes.value taken⟩
  obtain ⟨norm_eq, size_eq⟩ := settled.of_none none
  exact ⟨norm_eq, size_eq, seeks.ends bound callable none⟩

/-- An iteration towards a root of `a² + 1`, which has none. The line search makes one trial. -/
def towardsNone : Solver Float where
  settings := { singleStep with searchSteps := .ok (.count 0) }
  system := some (squareMinus (-1))
  preconditioner := .identity

/-- At zero the residual is smallest, so that no scale of the step makes it smaller. -/
theorem newtonStep_rejects_towardsNone : ∃ it t r out v,
    SeeksStep (squareMinus (-1)) towardsNone ⟨[1], [0]⟩ 0 it t r out v ∧ out.state = none ∧
      ∃ sol w, (solve ⟨[1], [0]⟩).run towardsNone = (.ok sol, w) ∧ Returns towardsNone it sol ∧
        Untouched t w := by
  have rejected : (match (prepare ⟨[1], [0]⟩).run towardsNone with
      | (.ok o, t) =>
        let r := o.start.state.map fun a => a * a - -1
        match ((newtonStep o.start.state r r.norm (o.start.iterations + 1)).run
            (t.beforeStep o.start.state)).1 with
        | .ok out => decide (o.begins = true ∧ out.state.isNone = true)
        | .error _ => false
      | (.error _, _) => false) = true := by
    decide +kernel
  have callable (e : Error) : towardsNone.settings.hooks .postsolve ≠ some (.error e) := nofun
  rcases prepared : (prepare ⟨[1], [0]⟩).run towardsNone with ⟨e | o, t⟩
  · simp [prepared] at rejected
  obtain ⟨started, -, -⟩ := (prepare_leads (s := towardsNone) rfl ⟨[1], [0]⟩).result prepared
  have answer : t.hookAnswer .prestep o.start.state = .ok (.value .null) := by
    unfold hookAnswer
    rw [started.kept.2]
    rfl
  set r := o.start.state.map fun a => a * a - -1 with residual
  rcases run : (newtonStep o.start.state r r.norm (o.start.iterations + 1)).run
      (t.beforeStep o.start.state) with ⟨e | out, v⟩
  · simp [prepared, ← residual, run] at rejected
  · simp only [prepared, ← residual, run, decide_eq_true_eq] at rejected
    have seeks : SeeksStep (squareMinus (-1)) towardsNone ⟨[1], [0]⟩ 0 o.start t r out v :=
      ⟨.start prepared rejected.1, ⟨_, answer, rfl⟩, rfl, run⟩
    have none : out.state = none := Option.isNone_iff_eq_none.mp rejected.2
    obtain ⟨_, _, -, -, ends, -⟩ := newtonStep_rejects rfl callable seeks
    obtain ⟨-, -, sol, w, -, solved, returns, untouched⟩ := ends none
    have patient : towardsNone.HasPatience 0 := nofun
    exact ⟨_, t, r, out, v, seeks, none, sol, w, solved (Nat.zero_le _) patient, returns, untouched⟩

end Run

end Solver

end NewtonKrylov
