import Mathlib.Data.Finset.Card
import Mathlib.Data.Finset.Range
import NewtonKrylov.Proofs.Newton.Reason

/-!
# The passes of an iteration

`Ends` is the run of an iteration that makes as many passes as follow, with no bound on them. Behind
each pass that another one follows, a hook has asked for that or there is room for one more step.
`Pending` is what is known of a run where a pass begins, and one pass hands it on to the next.

Nothing here depends on the arithmetic.
-/

namespace NewtonKrylov

namespace Solver

variable {α : Type} [CheckedScalar α]

/-! ### Runs without a bound -/

section Unbounded

/-- In the run from `s` and `x` another pass begins after `k` of them, at this iteration and with
this solver. -/
inductive BeginsPass (s : Solver α) (x : Tensor α) : ℕ → Iteration α → Solver α → Prop
  | start {o : Outset α} {t : Solver α} (prepared : (prepare x).run s = (.ok o, t))
      (begins : o.begins = true) : BeginsPass s x 0 o.start t
  | next {k : ℕ} {it it' : Iteration α} {t t' : Solver α} (reached : BeginsPass s x k it t)
      (again : (pass it).run t = (.ok (it', true), t')) : BeginsPass s x (k + 1) it' t'

/-- Passes from an iteration, as many as ask for another one, lead to this. -/
inductive Loops :
    Iteration α → Solver α → Except Error (Iteration α) → Solver α → Prop
  | stop {it last : Iteration α} {t u : Solver α}
      (stops : (pass it).run t = (.ok (last, false), u)) : Loops it t (.ok last) u
  | failure {it : Iteration α} {t u : Solver α} {e : Error}
      (fails : (pass it).run t = (.error e, u)) : Loops it t (.error e) u
  | again {it it' : Iteration α} {t t' u : Solver α} {r : Except Error (Iteration α)}
      (goes_on : (pass it).run t = (.ok (it', true), t')) (rest : Loops it' t' r u) : Loops it t r u

/-- The run from `s` and `x` ends with this, when any number of passes may follow. -/
inductive Ends (s : Solver α) (x : Tensor α) : Except Error (Solution α) → Solver α → Prop
  | early {e : Error} {t : Solver α} (fails : (prepare x).run s = (.error e, t)) :
      Ends s x (.error e) t
  | failure {o : Outset α} {t u : Solver α} {e : Error}
      (prepared : (prepare x).run s = (.ok o, t)) (begins : o.begins = true)
      (loops : Loops o.start t (.error e) u) : Ends s x (.error e) u
  | behindPasses {o : Outset α} {t u v : Solver α} {last : Iteration α}
      {r : Except Error (Solution α)} (prepared : (prepare x).run s = (.ok o, t))
      (begins : o.begins = true) (loops : Loops o.start t (.ok last) u)
      (concluded : (conclude o.norm last).run u = (r, v)) : Ends s x r v
  | behindStart {o : Outset α} {t v : Solver α} {r : Except Error (Solution α)}
      (prepared : (prepare x).run s = (.ok o, t)) (ends : o.begins = false)
      (concluded : (conclude o.norm o.start).run t = (r, v)) : Ends s x r v

end Unbounded

/-- Passes lead to one result. -/
lemma Loops.unique {it : Iteration α} {t u u' : Solver α} {r r' : Except Error (Iteration α)}
    (loops : Loops it t r u) (loops' : Loops it t r' u') : r = r' ∧ u = u' := by
  induction loops with
  | stop stops =>
    cases loops' with
    | stop stops' =>
      cases stops.symm.trans stops'
      exact ⟨rfl, rfl⟩
    | failure fails => cases stops.symm.trans fails
    | again goes_on => cases stops.symm.trans goes_on
  | failure fails =>
    cases loops' with
    | stop stops => cases fails.symm.trans stops
    | failure fails' =>
      cases fails.symm.trans fails'
      exact ⟨rfl, rfl⟩
    | again goes_on => cases fails.symm.trans goes_on
  | again goes_on rest ih =>
    cases loops' with
    | stop stops => cases goes_on.symm.trans stops
    | failure fails => cases goes_on.symm.trans fails
    | again goes_on' rest' =>
      cases goes_on.symm.trans goes_on'
      exact ih rest'

/-- A run has one end. -/
lemma Ends.unique {s u u' : Solver α} {x : Tensor α} {r r' : Except Error (Solution α)}
    (ends : Ends s x r u) (ends' : Ends s x r' u') : r = r' ∧ u = u' := by
  cases ends with
  | early fails =>
    cases ends' with
    | early fails' =>
      cases fails.symm.trans fails'
      exact ⟨rfl, rfl⟩
    | failure prepared | behindPasses prepared | behindStart prepared =>
      cases fails.symm.trans prepared
  | failure prepared begins loops =>
    cases ends' with
    | early fails => cases prepared.symm.trans fails
    | failure prepared' _ loops' =>
      cases prepared.symm.trans prepared'
      obtain ⟨⟨⟩, rfl⟩ := loops.unique loops'
      exact ⟨rfl, rfl⟩
    | behindPasses prepared' _ loops' =>
      cases prepared.symm.trans prepared'
      cases (loops.unique loops').1
    | behindStart prepared' ends =>
      cases prepared.symm.trans prepared'
      cases begins.symm.trans ends
  | behindPasses prepared begins loops concluded =>
    cases ends' with
    | early fails => cases prepared.symm.trans fails
    | failure prepared' _ loops' =>
      cases prepared.symm.trans prepared'
      cases (loops.unique loops').1
    | behindPasses prepared' _ loops' concluded' =>
      cases prepared.symm.trans prepared'
      obtain ⟨⟨⟩, rfl⟩ := loops.unique loops'
      cases concluded.symm.trans concluded'
      exact ⟨rfl, rfl⟩
    | behindStart prepared' ends =>
      cases prepared.symm.trans prepared'
      cases begins.symm.trans ends
  | behindStart prepared ends concluded =>
    cases ends' with
    | early fails => cases prepared.symm.trans fails
    | failure prepared' begins | behindPasses prepared' begins =>
      cases prepared.symm.trans prepared'
      cases begins.symm.trans ends
    | behindStart prepared' _ concluded' =>
      cases prepared.symm.trans prepared'
      cases concluded.symm.trans concluded'
      exact ⟨rfl, rfl⟩

/-- The solver of a pass is for the same problem. -/
lemma BeginsPass.kept {F : NonlinearSystem α} {s t : Solver α} {x : Tensor α} {k : ℕ}
    {it : Iteration α} (bound : s.system = some F) (reached : BeginsPass s x k it t) :
    t.system = some F ∧ t.settings = s.settings := by
  induction reached with
  | start prepared begins =>
    obtain ⟨system, settings⟩ := ((prepare_leads bound x).result prepared).1.kept
    exact ⟨system.trans bound, settings⟩
  | next reached again ih =>
    obtain ⟨system, settings⟩ := ih
    obtain ⟨system', settings'⟩ := ((pass_leads system).result again).kept
    exact ⟨system'.trans system, settings'.trans settings⟩

/-! ### What makes an iteration go on -/

section GoingOn

omit [CheckedScalar α] in
/-- In pass `i` of a run from `s`, counted from zero, a hook asked for another one. -/
def insists (s : Solver α) (log : List (Event α)) (i : ℕ) : Bool :=
  [HookPoint.prestep, .poststep].any fun point =>
    ((s.answersAt point log)[i]?).any (HookAnswer.asksFor .notDone)

omit [CheckedScalar α] in
/-- How many of the first `k` passes had such a hook. -/
def insistences (s : Solver α) (log : List (Event α)) (k : ℕ) : ℕ :=
  ((Finset.range k).filter fun i => s.insists log i = true).card

/-- The norm after a step is below the tolerance. -/
def ReachesTolerance (settings : Settings α) (out : StepOutcome α) : Prop :=
  ∃ tolerance, settings.tolerance = .ok tolerance ∧ out.norm < tolerance

/-- What makes an iteration go on behind pass `i`: a hook has asked for that, or there is room for
another step and neither the norm nor the step is small enough. -/
def GoesOnBehind (s : Solver α) (limit : Limit) (log : List (Event α)) (i : ℕ) : Prop :=
  ∃ out, (stepLog log).recorded[i]? = some out ∧
    (s.insists log i = true ∨ limit.allows (i + 1) = true ∧ ¬ ReachesTolerance s.settings out ∧
      ¬ IsSmall s.settings out)

/-- The hook at a point, if given, has answered once in each of `k` passes. -/
def AnsweredAt (s : Solver α) (point : HookPoint) (log : List (Event α)) (k : ℕ) : Prop :=
  (s.settings.hooks point).isSome = true → (s.answersAt point log).length = k

/-- What is known of a run from `s` where a pass begins after `k` others. -/
structure Pending (F : NonlinearSystem α) (s : Solver α) (limit : Limit) (k : ℕ) (it : Iteration α)
    (t : Solver α) : Prop where
  system : t.system = some F
  settings : t.settings = s.settings
  room : limit.allows 0 = true
  counted : Counted s t
  prestep : s.AnsweredAt .prestep t.log k
  poststep : s.AnsweredAt .poststep t.log k
  iterations : it.iterations = k
  stepPending : s.settings.stepTolerance = none → it.stepPending = true
  recorded : (stepLog t.log).recorded.length = k
  behind : ∀ i < k, s.GoesOnBehind limit t.log i

end GoingOn

/-! ### The step of a pass -/

section BeforeStep

variable {F : NonlinearSystem α} {t u : Solver α} {it : Iteration α} {x r : Tensor α}

/-- The solver that looks for a step, in a pass that begins with `t` at `x`. -/
def beforeStep {α : Type} (t : Solver α) (x : Tensor α) : Solver α :=
  (t.afterHook .prestep x).logged (.evaluated x)

omit [CheckedScalar α] in
@[simp] lemma beforeStep_system : (t.beforeStep x).system = t.system := afterHook_system _ _

omit [CheckedScalar α] in
@[simp] lemma beforeStep_settings : (t.beforeStep x).settings = t.settings := afterHook_settings _ _

/-- A pass fails if it comes to look for a step and fails there. -/
lemma pass_run_of_newtonStep {pre : HookAnswer} {e : Error}
    (answer : t.hookAnswer .prestep it.state = .ok pre) (goes_on : pre.asksFor .exit = false)
    (bound : t.system = some F) (value : F.residual it.state = .ok r)
    (fails : (newtonStep it.state r r.norm (it.iterations + 1)).run (t.beforeStep it.state)
      = (.error e, u)) : (pass it).run t = (.error e, u) := by
  have called : (callHook .prestep it.state).run t = (.ok pre, t.afterHook .prestep it.state) := by
    rw [callHook_run, answer]
  have evaluated := evaluate_run (s := t.afterHook .prestep it.state) (by simpa using bound) value
  unfold pass
  rw [run_bind_of_ok called, if_neg (by simpa using goes_on), run_bind_of_ok evaluated]
  exact run_bind_of_error fails

end BeforeStep

/-! ### One pass -/

section Answers

omit [CheckedScalar α]

variable {s : Solver α} {point : HookPoint} {log log' : List (Event α)} {a : HookAnswer}

/-- Between two logs the hook at a point was called once if it is given, and the answer was `a`. -/
structure AnswersOnce (s : Solver α) (point : HookPoint) (a : HookAnswer)
    (log log' : List (Event α)) : Prop where
  answers : s.answersAt point log'
    = s.answersAt point log ++ if (s.settings.hooks point).isSome then [a] else []
  null : s.settings.hooks point = none → a = .value .null

namespace AnswersOnce

variable {k : ℕ} (once : AnswersOnce s point a log log') (before : s.AnsweredAt point log k)
include once before

lemma answeredAt : s.AnsweredAt point log' (k + 1) := by
  intro given
  rw [once.answers, if_pos given, List.length_append, before given, List.length_singleton]

lemma getElem?_of_lt {i : ℕ} (lt : i < k) :
    (s.answersAt point log')[i]? = (s.answersAt point log)[i]? := by
  cases given : s.settings.hooks point with
  | none => rw [answersAt_of_none given, answersAt_of_none given]
  | some hook =>
    rw [once.answers, List.getElem?_append_left]
    rwa [before (by rw [given]; rfl)]

lemma asksFor_getElem? (r : HookRequest) :
    ((s.answersAt point log')[k]?).any (HookAnswer.asksFor r) = a.asksFor r := by
  cases given : s.settings.hooks point with
  | none =>
    rw [answersAt_of_none given, once.null given]
    rfl
  | some hook =>
    have isSome : (s.settings.hooks point).isSome = true := by
      rw [given]
      rfl
    rw [once.answers, if_pos isSome, List.getElem?_append_right (before isSome).le, before isSome,
      Nat.sub_self]
    rfl

end AnswersOnce

end Answers

section Pass

variable {F : NonlinearSystem α} {s t u : Solver α} {limit : Limit} {k : ℕ} {it it' : Iteration α}

/-- A pass that hands on to another one has recorded a step, and has called each of its hooks
once. -/
structure HandsOn (s : Solver α) (it it' : Iteration α) (t u : Solver α) (limit : Limit)
    (pre post : HookAnswer) (out : StepOutcome α) : Prop where
  counted : Counted s u
  prestep : AnswersOnce s .prestep pre t.log u.log
  poststep : AnswersOnce s .poststep post t.log u.log
  recorded : (stepLog u.log).recorded = (stepLog t.log).recorded ++ [out]
  advanced : ∃ y, out.state = some y ∧ Advanced s.settings it y out.norm out.size it'
  asked : (it'.goesOn limit || (pre.asksFor .notDone || post.asksFor .notDone)) = true

lemma Passed.handsOn (passed : Passed F t it (it', true) u) (counted : Counted s t)
    (same : t.settings = s.settings) (max : s.settings.maxIterations = .ok limit) :
    ∃ pre post out, HandsOn s it it' t u limit pre post out := by
  generalize outcome : (it', true) = result at passed
  cases passed with
  | exitBefore answer exits => cases outcome
  | rejected attempts none => cases outcome
  | exitAfter attempts some answer exits => cases outcome
  | @recorded pre post out v _ y p next limit' attempts taken answer not_exit rebuilt keeps advance
      max' =>
    obtain ⟨rfl, asked⟩ := Prod.mk.injEq .. ▸ outcome
    obtain rfl : limit' = limit := by
      rw [same, max] at max'
      exact (Except.ok.inj max').symm
    rw [same] at advance
    have called := attempts.counted counted
    have settings : v.settings = s.settings := attempts.settings.trans same
    -- Behind the last hook the log has one entry more, which is no answer and no step.
    have log : u.log = ((v.afterHook .poststep y).logged (.refreshed y)).log := keeps.log
    refine ⟨pre, post, out, ?_, ⟨?_, ?_⟩, ⟨?_, ?_⟩, ?_, ⟨y, taken, advanced_of_eq_ok advance⟩,
      asked.symm⟩
    · have recorded : Counted s ((v.afterHook .poststep y).logged (.refreshed y)) :=
        called.afterHook.logged fun _ => rfl
      exact (recorded.rebuilt p).keeps keeps
    · rw [log, answersAt_logged rfl, answersAt_afterHook_of_ne (by simp), attempts.log_eq,
        answersAt_logged rfl, answersAt_logged rfl,
        answersAt_afterHook counted same attempts.answer]
    · exact hookAnswer_of_none same attempts.answer
    · rw [log, answersAt_logged rfl, answersAt_afterHook called settings answer, attempts.log_eq,
        answersAt_logged rfl, answersAt_logged rfl, answersAt_afterHook_of_ne (by simp)]
    · exact hookAnswer_of_none settings answer
    · rw [log]
      simp [attempts.stepLog_eq, StepLog.note]

lemma Passed.iterations_le {again : Bool} (passed : Passed F t it (it', again) u) :
    it'.iterations ≤ it.iterations + 1 := by
  cases passed with
  | exitBefore answer exits => exact Nat.le_succ _
  | rejected attempts none => exact Nat.le_succ _
  | exitAfter attempts some answer exits => exact Nat.le_succ _
  | recorded attempts some answer not_exit rebuilt keeps advance max =>
    exact (advanced_of_eq_ok advance).iterations.le

namespace Pending

variable {pre post : HookAnswer} {out : StepOutcome α} (pending : Pending F s limit k it t)
  (hands : HandsOn s it it' t u limit pre post out)
include pending hands

lemma insists_of_lt {i : ℕ} (lt : i < k) : s.insists u.log i = s.insists t.log i := by
  unfold insists
  simp only [List.any_cons, List.any_nil, hands.prestep.getElem?_of_lt pending.prestep lt,
    hands.poststep.getElem?_of_lt pending.poststep lt]

lemma insists_last :
    s.insists u.log k = (pre.asksFor .notDone || post.asksFor .notDone) := by
  unfold insists
  simp only [List.any_cons, List.any_nil, hands.prestep.asksFor_getElem? pending.prestep,
    hands.poststep.asksFor_getElem? pending.poststep, Bool.or_false]

/-- The pass that has just ended goes on for a reason. -/
lemma goesOnBehind_last : s.GoesOnBehind limit u.log k := by
  obtain ⟨y, taken, advanced⟩ := hands.advanced
  refine ⟨out, ?_, ?_⟩
  · rw [hands.recorded, List.getElem?_append_right pending.recorded.le, pending.recorded,
      Nat.sub_self]
    rfl
  rw [pending.insists_last hands]
  rcases Bool.or_eq_true_iff.mp hands.asked with goes_on | asked
  · -- The step has not met its tolerance: without one it is pending for good, and with one it was
    -- tested.
    right
    obtain ⟨⟨norm, step⟩, room⟩ := by simpa [Iteration.goesOn] using goes_on
    refine ⟨?_, ?_, ?_⟩
    · rwa [advanced.iterations, pending.iterations] at room
    · rintro ⟨tolerance, given, below⟩
      obtain ⟨tolerance', given', test⟩ := advanced.normPending
      rw [given, Except.ok.injEq] at given'
      subst given'
      simp [norm, below] at test
    · intro small
      rw [← advanced.stepPending_eq_false taken pending.stepPending, step] at small
      cases small
  · exact .inl asked

/-- What is known where a pass begins is known where the next one begins. -/
lemma next (system : u.system = t.system) (settings : u.settings = t.settings) :
    Pending F s limit (k + 1) it' u := by
  obtain ⟨y, taken, advanced⟩ := hands.advanced
  constructor
  case system => exact system.trans pending.system
  case settings => exact settings.trans pending.settings
  case room => exact pending.room
  case counted => exact hands.counted
  case prestep => exact hands.prestep.answeredAt pending.prestep
  case poststep => exact hands.poststep.answeredAt pending.poststep
  case iterations => rw [advanced.iterations, pending.iterations]
  case stepPending =>
    intro none
    rcases advanced.stepPending with ⟨-, kept⟩ | ⟨_, _, given, -⟩
    · rw [kept, pending.stepPending none]
    · rw [none] at given
      cases given
  case recorded => rw [hands.recorded, List.length_append, pending.recorded, List.length_singleton]
  case behind =>
    -- The reasons of the earlier passes are still in the log, and the last one is the reason why
    -- this pass has handed on.
    intro i lt
    rcases Nat.lt_succ_iff_lt_or_eq.mp lt with old | rfl
    · obtain ⟨out', step, reason⟩ := pending.behind i old
      refine ⟨out', ?_, ?_⟩
      · rw [hands.recorded, List.getElem?_append_left (by rw [pending.recorded]; exact old), step]
      · rwa [pending.insists_of_lt hands old]
    · exact pending.goesOnBehind_last hands

end Pending

end Pass

end Solver

end NewtonKrylov
