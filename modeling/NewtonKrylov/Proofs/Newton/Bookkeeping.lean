import NewtonKrylov.Proofs.Newton.Descent
import NewtonKrylov.Proofs.Newton.Log

/-!
# The books of an iteration

An iteration carries flags and counts from pass to pass. `Booked` says what each of them knows about
the run so far, as its log tells it: how many steps were recorded, what the last test of the norm
and that of the step came to, whether a hook has asked for the end, and what a rejected step means.
It holds before each pass and after the last one, also where hooks have kept the iteration going.

Two more facts hold before a pass only, and two others after the last one; `solve_closed` carries
all of them through a run.
-/

namespace NewtonKrylov

namespace Solver

variable {α : Type} [CheckedScalar α]

/-! ### What flags stand for -/

/-- The residual norm at a state is not above the tolerance. -/
def WithinTolerance (F : NonlinearSystem α) (settings : Settings α) (x : Tensor α) : Prop :=
  ∃ tolerance c, settings.tolerance = .ok tolerance ∧ HasNorm F x c ∧ c ≤ tolerance

/-- The size of a step, relative to the state it has led to, is below the tolerance for steps. -/
def IsSmall (settings : Settings α) (out : StepOutcome α) : Prop :=
  ∃ relative y scale, settings.stepTolerance = some (.ok relative) ∧ out.state = some y ∧
    y.maxNorm = .ok scale ∧ ¬ relative * scale ≤ out.size

/-- The last recorded step is small. -/
def LastSmall (settings : Settings α) (log : List (Event α)) : Prop :=
  ∃ out, (stepLog log).recorded.getLast? = some out ∧ IsSmall settings out

/-- A line search along a step from `x` that increases the norm, made after the guard has mended the
step, finds no scale at which the norm decreases. -/
def SearchFails (F : NonlinearSystem α) (settings : Settings α) (x : Tensor α) : Prop :=
  ∃ r proposed dx fullNorm out, F.residual x = .ok r ∧ F.guard.step x proposed = .ok dx ∧
    normAfter F x dx = .ok fullNorm ∧ ¬ fullNorm ≤ r.norm ∧
    searchAlong F settings x dx r.norm fullNorm = .ok out ∧
    ¬ (out.last.norm < r.norm ∧ 0 < out.last.scale)

/-- The last step looked for was rejected after a line search from `x`. -/
def LastRejected (F : NonlinearSystem α) (settings : Settings α) (x : Tensor α)
    (log : List (Event α)) : Prop :=
  SearchFails F settings x ∧
    ∃ out, (stepLog log).unrecorded = some out ∧ out.state = none ∧ 0 < out.trials

/-- The test of the last recorded norm. The norm at the start may be equal to the tolerance. -/
def NormReached (settings : Settings α) (norm : α) (it : Iteration α) : Prop :=
  ∃ tolerance, settings.tolerance = .ok tolerance ∧
    if it.iterations = 0 then norm ≤ tolerance else it.norms.getLastD norm < tolerance

/-- What an iteration knows about the run from `s` that has led to it. -/
structure Booked (F : NonlinearSystem α) (s : Solver α) (norm : α) (it : Iteration α)
    (t : Solver α) : Prop where
  counted : Counted s t
  length_norms : it.norms.length = it.iterations
  exited : it.exited = true ↔ s.AskedToExit t.log
  normPending : it.normPending = false ↔ NormReached s.settings norm it
  stepPending : it.stepPending = false ↔ it.stalled = true ∨ LastSmall s.settings t.log
  stalled : it.stalled = true → LastRejected F s.settings it.state t.log

/-- An iteration before a pass. Every accepted step was recorded. -/
structure Open (F : NonlinearSystem α) (s : Solver α) (norm : α) (it : Iteration α)
    (t : Solver α) : Prop where
  recorded : Recorded F norm it t
  booked : Booked F s norm it t
  visited : visitedStates t.log = recordedStates t.log
  not_exited : it.exited = false
  not_stalled : it.stalled = false

/-- An iteration after its last pass. A step after which a hook asks for the end is accepted, but
not recorded. -/
structure Closed (F : NonlinearSystem α) (s : Solver α) (norm : α) (it : Iteration α)
    (t : Solver α) : Prop where
  accepted : Accepted F norm it t
  booked : Booked F s norm it t
  visited : ¬ s.Asked .exit .poststep t.log ∧ visitedStates t.log = recordedStates t.log ∧
      (recordedStates t.log).getLast? = some it.state ∨
    s.Asked .exit .poststep t.log ∧ visitedStates t.log = recordedStates t.log ++ [it.state] ∧
      ∃ c, HasNorm F it.state c ∧ c ≤ it.norms.getLastD norm
  exhausted : it.exited = true ∨ it.stalled = true ∨
    ∃ limit, s.settings.maxIterations = .ok limit ∧ it.goesOn limit = false

/-! ### One pass -/

section Pass

variable {F : NonlinearSystem α} {s t u : Solver α} {norm : α} {it it' : Iteration α}
  {pre : HookAnswer} {out : StepOutcome α}

lemma Attempts.counted (attempts : Attempts F t it pre out u) (counted : Counted s t) :
    Counted s u := by
  obtain ⟨v, kept, rfl⟩ := attempts.keeps
  exact ((counted.afterHook.logged fun _ => rfl).keeps kept).logged fun _ => rfl

lemma Attempts.askedToExit (attempts : Attempts F t it pre out u) (counted : Counted s t)
    (same : t.settings = s.settings) : s.AskedToExit u.log ↔ s.AskedToExit t.log := by
  rw [attempts.log_eq, askedToExit_logged fun _ => rfl, askedToExit_logged fun _ => rfl,
    askedToExit_afterHook counted same attempts.answer (by simp), attempts.not_exit]
  simp

lemma Attempts.asked_poststep (attempts : Attempts F t it pre out u) {r : HookRequest} :
    s.Asked r .poststep u.log ↔ s.Asked r .poststep t.log := by
  rw [attempts.log_eq, asked_logged rfl, asked_logged rfl, asked_afterHook_of_ne (by simp)]

lemma Attempts.stepLog_eq (attempts : Attempts F t it pre out u) :
    stepLog u.log = { stepLog t.log with unrecorded := some out } := by
  rw [attempts.log_eq]
  simp [StepLog.note]

lemma Attempts.visitedStates_eq (attempts : Attempts F t it pre out u) :
    visitedStates u.log = visitedStates t.log ++ out.state.toList := by
  rw [attempts.log_eq]
  simp [visited?]

/-- A step is rejected by a line search only. -/
lemma Attempts.searchFails (attempts : Attempts F t it pre out u) (none : out.state = none) :
    SearchFails F t.settings it.state ∧ 0 < out.trials := by
  obtain ⟨r, value, _, _, _, -, guarded, full, settled⟩ := attempts.attempted
  cases settled with
  | full => cases none
  | searched => cases none
  | rejected increased search fails =>
    exact ⟨⟨r, _, _, _, _, value, guarded, full, increased, search, fails⟩,
      by simp [LineSearch.Outcome.trials]⟩

lemma LastSmall.congr {settings : Settings α} {log log' : List (Event α)}
    (same : (stepLog log').recorded = (stepLog log).recorded) :
    LastSmall settings log' ↔ LastSmall settings log := by
  unfold LastSmall
  rw [same]

lemma lastSmall_afterHook {settings : Settings α} {point : HookPoint} {x : Tensor α} :
    LastSmall settings (t.afterHook point x).log ↔ LastSmall settings t.log :=
  LastSmall.congr (by rw [stepLog_afterHook])

lemma lastRejected_afterHook {settings : Settings α} {point : HookPoint} {x y : Tensor α} :
    LastRejected F settings y (t.afterHook point x).log ↔ LastRejected F settings y t.log := by
  unfold LastRejected
  rw [stepLog_afterHook]

/-- The flag for steps, after a step has been recorded. -/
lemma Advanced.stepPending_eq_false {settings : Settings α} {y : Tensor α}
    (advanced : Advanced settings it y out.norm out.size it') (accepted : out.state = some y)
    (pending : settings.stepTolerance = none → it.stepPending = true) :
    it'.stepPending = false ↔ IsSmall settings out := by
  rcases advanced.stepPending with ⟨none, kept⟩ | ⟨relative, scale, given, largest, test⟩
  · rw [kept, pending none]
    simp [IsSmall, none]
  · rw [test, decide_eq_false_iff_not]
    constructor
    · intro small
      exact ⟨relative, y, scale, given, accepted, largest, small⟩
    · -- The test that was made is the only one there is to make: the tolerance, the state and its
      -- size are the same.
      rintro ⟨relative', y', scale', given', accepted', largest', small⟩
      rw [given, Option.some.injEq, Except.ok.injEq] at given'
      rw [accepted, Option.some.injEq] at accepted'
      rw [← accepted', largest, Except.ok.injEq] at largest'
      rwa [given', largest']

/-- The flag for norms, after a step has been recorded. -/
lemma Advanced.normPending_eq_false {settings : Settings α} {y : Tensor α} {c size : α}
    (advanced : Advanced settings it y c size it') :
    it'.normPending = false ↔ NormReached settings norm it' := by
  obtain ⟨tolerance, reach, test⟩ := advanced.normPending
  simp [NormReached, test, reach, advanced.iterations, advanced.norms]

lemma Booked.norms_eq_nil (books : Booked F s norm it t) (start : it.iterations = 0) :
    it.norms = [] := List.length_eq_zero_iff.mp (books.length_norms.trans start)

/-- As long as an iteration has not been asked to end, no hook behind a step has done so. -/
lemma Booked.not_asked (books : Booked F s norm it t) (not_exited : it.exited = false) :
    ¬ s.Asked .exit .poststep t.log := by
  intro asked
  have exited := books.exited.mpr ⟨.poststep, by simp, asked⟩
  simp [not_exited] at exited

section Open

variable (opened : Open F s norm it t) (same : t.settings = s.settings)
include opened

/-- Without a tolerance for steps none of them ends an iteration. -/
lemma Open.stepPending_of_none (none : s.settings.stepTolerance = none) :
    it.stepPending = true := by
  by_contra pending
  rw [Bool.not_eq_true, opened.booked.stepPending] at pending
  rcases pending with stalled | ⟨_, -, _, _, _, given, -⟩
  · simp [opened.not_stalled] at stalled
  · simp [none] at given

lemma Open.not_asked : ¬ s.Asked .exit .poststep t.log :=
  opened.booked.not_asked opened.not_exited

include same

/-! #### The four ends of a pass -/

lemma Open.booked_exitBefore {pre : HookAnswer} (answer : t.hookAnswer .prestep it.state = .ok pre)
    (exits : pre.asksFor .exit = true) :
    Booked F s norm { it with exited := true } (t.afterHook .prestep it.state) := by
  have books := opened.booked
  constructor
  case counted => exact books.counted.afterHook
  case length_norms => exact books.length_norms
  case exited => simp [askedToExit_afterHook books.counted same answer, exits]
  case normPending => exact books.normPending
  case stepPending =>
    rw [lastSmall_afterHook]
    exact books.stepPending
  case stalled => simp [opened.not_stalled]

lemma Open.booked_rejected (attempts : Attempts F t it pre out u) (none : out.state = none) :
    Booked F s norm { it with stalled := true, stepPending := false } u := by
  have books := opened.booked
  obtain ⟨fails, trials⟩ := attempts.searchFails none
  constructor
  case counted => exact attempts.counted books.counted
  case length_norms => exact books.length_norms
  case exited => exact books.exited.trans (attempts.askedToExit books.counted same).symm
  case normPending => exact books.normPending
  case stepPending => simp
  case stalled =>
    intro _
    exact ⟨same ▸ fails, out, by rw [attempts.stepLog_eq], none, trials⟩

lemma Open.booked_exitAfter {y : Tensor α} {post : HookAnswer}
    (attempts : Attempts F t it pre out u) (answer : u.hookAnswer .poststep y = .ok post)
    (exits : post.asksFor .exit = true) :
    Booked F s norm { it with state := y, exited := true } (u.afterHook .poststep y) := by
  have books := opened.booked
  have counted := attempts.counted books.counted
  constructor
  case counted => exact counted.afterHook
  case length_norms => exact books.length_norms
  case exited =>
    simp [askedToExit_afterHook counted (attempts.settings.trans same) answer, exits]
  case normPending => exact books.normPending
  case stepPending =>
    -- The step was taken but not recorded, so the flag still speaks of the one before.
    have steps : (stepLog u.log).recorded = (stepLog t.log).recorded := by rw [attempts.stepLog_eq]
    rw [lastSmall_afterHook, LastSmall.congr steps]
    exact books.stepPending
  case stalled => simp [opened.not_stalled]

lemma Open.booked_recorded {y : Tensor α} {post : HookAnswer} {v : Solver α}
    (attempts : Attempts F t it pre out u) (taken : out.state = some y)
    (answer : u.hookAnswer .poststep y = .ok post) (not_exit : post.asksFor .exit = false)
    {p : Preconditioner α}
    (keeps : Keeps { (u.afterHook .poststep y).logged (.refreshed y) with preconditioner := p } v)
    (advanced : Advanced s.settings it y out.norm out.size it') : Booked F s norm it' v := by
  have books := opened.booked
  have counted := attempts.counted books.counted
  have log : v.log = ((u.afterHook .poststep y).logged (.refreshed y)).log := keeps.log
  -- The step is the last one of those that are recorded.
  have steps : (stepLog v.log).recorded = (stepLog t.log).recorded ++ [out] := by
    rw [log]
    simp [attempts.stepLog_eq, StepLog.note]
  constructor
  case counted =>
    have called : Counted s ((u.afterHook .poststep y).logged (.refreshed y)) :=
      counted.afterHook.logged fun _ => rfl
    exact (called.rebuilt p).keeps keeps
  case length_norms =>
    rw [advanced.norms, advanced.iterations, List.length_append, books.length_norms]
    rfl
  case exited =>
    rw [advanced.exited, log, askedToExit_logged fun _ => rfl,
      askedToExit_afterHook counted (attempts.settings.trans same) answer (by simp), not_exit,
      attempts.askedToExit books.counted same, books.exited]
    simp
  case normPending => exact advanced.normPending_eq_false
  case stepPending =>
    rw [advanced.stepPending_eq_false taken opened.stepPending_of_none, advanced.stalled,
      opened.not_stalled]
    simp [LastSmall, steps]
  case stalled =>
    rw [advanced.stalled, opened.not_stalled]
    simp

variable [LawfulComparison α]

/-- A pass after which another one follows leaves an iteration open, and the last one closes it. -/
theorem Open.pass {again : Bool} (passed : Passed F t it (it', again) u) :
    (again = true → Open F s norm it' u) ∧ (again = false → Closed F s norm it' u) := by
  -- What the norms say is kept by `step`; here it is the flags, the calls of the hooks, and the
  -- states that were visited.
  obtain ⟨accepted, recorded⟩ := opened.recorded.step passed
  cases passed with
  | exitBefore answer exits =>
    refine ⟨nofun, fun _ => ⟨accepted, opened.booked_exitBefore same answer exits,
      .inl ⟨?_, ?_, ?_⟩, .inl rfl⟩⟩
    · rw [asked_afterHook_of_ne (by simp)]
      exact opened.not_asked
    · simpa using opened.visited
    · simpa using opened.recorded.state
  | rejected attempts none =>
    refine ⟨nofun, fun _ => ⟨accepted, opened.booked_rejected same attempts none, .inl ⟨?_, ?_, ?_⟩,
      .inr (.inl rfl)⟩⟩
    · rw [attempts.asked_poststep]
      exact opened.not_asked
    · rw [attempts.visitedStates_eq, attempts.log, opened.visited, none, Option.toList_none,
        List.append_nil]
    · rw [attempts.log]
      exact opened.recorded.state
  | exitAfter attempts taken answer exits =>
    refine ⟨nofun, fun _ => ⟨accepted, opened.booked_exitAfter same attempts answer exits,
      .inr ⟨?_, ?_, _, attempts.descends taken opened.recorded.hasNorm⟩, .inl rfl⟩⟩
    · rw [asked_afterHook (attempts.counted opened.booked.counted) (attempts.settings.trans same)
        answer]
      exact .inr exits
    · rw [visitedStates_afterHook, recordedStates_afterHook, attempts.visitedStates_eq,
        attempts.log, opened.visited, taken, Option.toList_some]
  | @recorded _ _ _ _ _ y _ _ limit attempts taken answer not_exit rebuilt keeps advance max =>
    rw [same] at advance max
    have advanced := advanced_of_eq_ok advance
    have books := opened.booked_recorded same attempts taken answer not_exit keeps advanced
    have not_exited : it'.exited = false := by rw [advanced.exited, opened.not_exited]
    have states : recordedStates u.log = recordedStates t.log ++ [y] := by
      rw [keeps.log]
      simp [attempts.log, recorded?]
    have visited : visitedStates u.log = recordedStates u.log := by
      rw [states, keeps.log]
      simp [attempts.visitedStates_eq, opened.visited, taken, visited?]
    constructor
    · intro goes_on
      exact ⟨recorded goes_on, books, visited, not_exited, by
        rw [advanced.stalled, opened.not_stalled]⟩
    · intro ends
      rw [Bool.or_eq_false_iff] at ends
      refine ⟨accepted, books, .inl ⟨books.not_asked not_exited, visited, ?_⟩,
        .inr (.inr ⟨limit, max, ends.1⟩)⟩
      rw [states, List.getLast?_concat, advanced.state]

end Open

end Pass

/-! ### A whole run -/

section Run

variable {F : NonlinearSystem α} {s u : Solver α} {x : Tensor α} {norm : α} {it : Iteration α}

/-- Where an iteration begins, no hook but the first has been called. -/
lemma Started.booked (started : Started F s x norm it u) :
    Booked F s norm it u ∧ ¬ s.Asked .exit .poststep u.log ∧
      visitedStates u.log = recordedStates u.log := by
  cases started with
  | @mk v t u pre y _ p tolerance _ allocated answer _ _ _ keeps reach =>
    have fresh : Counted s { s with log := [] } := fun _ => rfl
    have counted : Counted s t := fresh.keeps allocated
    have nothing : t.log = [] := allocated.log
    -- Three entries follow the first hook, none of which is a call.
    have called : Counted s ((((t.afterHook .presolve (Tensor.ofVec v)).logged
        (.guarded (Tensor.ofVec v))).logged (.evaluated y)).logged (.started y)) :=
      ((counted.afterHook.logged fun _ => rfl).logged fun _ => rfl).logged fun _ => rfl
    have log : u.log = ((((t.afterHook .presolve (Tensor.ofVec v)).logged
        (.guarded (Tensor.ofVec v))).logged (.evaluated y)).logged (.started y)).log := keeps.log
    refine ⟨?_, ?_, ?_⟩
    · constructor
      case counted => exact (called.rebuilt p).keeps keeps
      case length_norms => rfl
      case exited =>
        rw [log, askedToExit_logged fun _ => rfl, askedToExit_logged fun _ => rfl,
          askedToExit_logged fun _ => rfl,
          askedToExit_afterHook counted allocated.settings answer (by simp), nothing]
        simp
      case normPending => simp [NormReached, reach]
      case stepPending =>
        rw [log]
        simp [LastSmall, nothing, StepLog.note]
      case stalled => simp
    · rw [log, asked_logged rfl, asked_logged rfl, asked_logged rfl,
        asked_afterHook_of_ne (by simp), nothing]
      simp
    · rw [log]
      simp [nothing, visited?, recorded?]

lemma Started.not_stalled (started : Started F s x norm it u) : it.stalled = false := by
  cases started with
  | mk => rfl

variable [LawfulComparison α]

/-- The books of a run that ends with a solution. -/
def bookkeeping (F : NonlinearSystem α) (s : Solver α) (x : Tensor α) : Invariant F s x where
  during := Open F s
  after := Closed F s
  failed _ := True
  failed_early _ := trivial
  failed_at_start _ _ _ _ := trivial
  start := by
    intro _ it t _ started _ begins
    obtain ⟨books, -, visited⟩ := started.booked
    have not_exited : it.exited = false := by
      rw [Bool.and_eq_true] at begins
      simpa using begins.2
    exact ⟨started.recorded, books, visited, not_exited, started.not_stalled⟩
  stop_at_start := by
    intro _ it t limit started max ends
    obtain ⟨books, not_asked, visited⟩ := started.booked
    -- No pass begins if the first hook has asked for the end, or if there is nothing to do.
    have exhausted : it.exited = true ∨ it.goesOn limit = false := by
      rw [Bool.and_eq_false_iff] at ends
      rcases ends with stops | exited
      · exact .inr stops
      · exact .inl (by simpa using exited)
    refine ⟨started.recorded.accepted, books,
      .inl ⟨not_asked, visited, started.recorded.state⟩, ?_⟩
    rcases exhausted with exited | stops
    · exact .inl exited
    · exact .inr (.inr ⟨limit, max, stops⟩)
  next same opened passed := (opened.pass same passed).1 rfl
  last same opened passed := (opened.pass same passed).2 rfl
  failed_pass _ _ _ := trivial
  failed_limit _ := trivial
  failed_hook _ := trivial

/-- A run that ends with a solution leaves its iteration closed, and then calls the last hook. -/
theorem solve_closed {t : Solver α} {sol : Solution α} (bound : s.system = some F)
    (run : (solve x).run s = (.ok sol, t)) :
    ∃ norm it v answer, Closed F s norm it v ∧ t = v.afterHook .postsolve it.state ∧
      sol = ⟨it.state, it.iterations, norm, it.norms, it.converged, it.reason, answer, t.log⟩ := by
  have leads := (bookkeeping F s x).solve bound
  obtain ⟨norm, it, v, answer, closed, -, log, solution⟩ := leads.result run
  exact ⟨norm, it, v, answer, closed, log, solution⟩

end Run

/-- The residual of the square root of a number. -/
def squareMinus (c : Float) : NonlinearSystem Float :=
  ⟨fun x => .ok (x.map fun a => a * a - c), .none⟩

/-- Settings for iterations in one variable, with at most one step. -/
def singleStep : Settings Float where
  maxIterations := .ok (.count 1)
  tolerance := .ok 0.5
  stepTolerance := none
  difference := .number (.ok 0.25)
  restarts := .ok 1
  krylovSteps := none
  krylovTolerance := .ofNumber 0
  threshold := .ok 0.5
  searchSteps := .ok (.count 10)
  searchTolerance := .ofNumber 0
  hooks := fun _ => none

/-- An iteration towards the root of four in binary64 numbers. -/
def towardsTwo (settings : Settings Float) : Solver Float where
  settings := settings
  system := some (squareMinus 4)
  preconditioner := .identity

end Solver

end NewtonKrylov
