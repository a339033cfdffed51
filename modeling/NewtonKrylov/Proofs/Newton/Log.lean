import NewtonKrylov.Proofs.Newton.Run

/-!
# What a log tells

The log of a run lists what the run has done: the calls of hooks, the steps looked for with what
came of them, and the states recorded. The functions here read off a log what statements about runs
are made of. Each of them comes with the change that one more entry makes to it, so that an
invariant of runs can speak of the log so far.

A hook answers from the number of its earlier calls. Its answers are therefore not in the log, but
they follow from it and from the number of calls before the run.
-/

namespace NewtonKrylov

variable {α : Type}

/-! ### Reading a log -/

/-- The state that an entry of a log leads to: the one to start from, or that of an accepted step,
recorded or not. -/
def visited? : Event α → Option (Tensor α)
  | .started x => some x
  | .attempted _ out => out.state
  | _ => none

/-- The states that an iteration has led to. -/
def visitedStates (log : List (Event α)) : List (Tensor α) := log.filterMap visited?

/-- The state with which an entry of a log calls the hook at a point. -/
def callAt? (point : HookPoint) : Event α → Option (Tensor α)
  | .hook p x => if p = point then some x else none
  | _ => none

/-- The states with which the hook at a point was called. -/
def callsAt (point : HookPoint) (log : List (Event α)) : List (Tensor α) :=
  log.filterMap (callAt? point)

/-- The steps of an iteration, as its log tells them. -/
structure StepLog (α : Type) where
  /-- The steps that were recorded. -/
  recorded : List (StepOutcome α) := []
  /-- The last step looked for, unless it was recorded. -/
  unrecorded : Option (StepOutcome α) := none

/-- A step is recorded as soon as the preconditioner is built anew for its state. -/
def StepLog.note (steps : StepLog α) : Event α → StepLog α
  | .attempted _ out => { steps with unrecorded := some out }
  | .refreshed _ => ⟨steps.recorded ++ steps.unrecorded.toList, none⟩
  | _ => steps

/-- The steps that a log tells of. -/
def stepLog (log : List (Event α)) : StepLog α := log.foldl StepLog.note {}

namespace Solver

/-- The answers of the hook at a point in a run from `s` that has left this log. -/
def answersAt (s : Solver α) (point : HookPoint) (log : List (Event α)) : List HookAnswer :=
  match s.settings.hooks point with
  | some (.ok hook) => (callsAt point log).mapIdx fun i x => hook (s.calls point + i) x
  | _ => []

/-- Some call of the hook at a point has asked for `r`. -/
def Asked (s : Solver α) (r : HookRequest) (point : HookPoint) (log : List (Event α)) : Prop :=
  ∃ a ∈ s.answersAt point log, a.asksFor r = true

/-- Some hook in front of the end has asked for the end. -/
def AskedToExit (s : Solver α) (log : List (Event α)) : Prop :=
  ∃ point ∈ [HookPoint.presolve, .prestep, .poststep], s.Asked .exit point log

section Empty

variable {s : Solver α}

@[simp] lemma visitedStates_nil : visitedStates ([] : List (Event α)) = [] := rfl

@[simp] lemma recordedStates_nil : recordedStates ([] : List (Event α)) = [] := rfl

@[simp] lemma stepLog_nil : stepLog ([] : List (Event α)) = {} := rfl

@[simp] lemma answersAt_nil {point : HookPoint} : s.answersAt point [] = [] := by
  unfold answersAt
  split <;> rfl

lemma answersAt_of_none {point : HookPoint} {log : List (Event α)}
    (none : s.settings.hooks point = none) : s.answersAt point log = [] := by
  simp [answersAt, none]

@[simp] lemma not_asked_nil {r : HookRequest} {point : HookPoint} : ¬ s.Asked r point [] := by
  simp [Asked]

@[simp] lemma not_askedToExit_nil : ¬ s.AskedToExit [] := by
  simp [AskedToExit]

end Empty

/-! ### One more entry -/

section Entry

variable {s t u : Solver α} {e : Event α} {point q : HookPoint} {x : Tensor α}

lemma filterMap_logged {β : Type} (f : Event α → Option β) :
    (t.logged e).log.filterMap f = t.log.filterMap f ++ (f e).toList := by
  rw [logged, List.filterMap_append]
  cases value : f e <;> simp [value]

/-- A call of a hook does not count where only other entries do. -/
lemma filterMap_afterHook {β : Type} {f : Event α → Option β} (ignored : f (.hook point x) = none) :
    (t.afterHook point x).log.filterMap f = t.log.filterMap f := by
  unfold afterHook
  split
  · rfl
  · simp [ignored]

@[simp] lemma visitedStates_logged :
    visitedStates (t.logged e).log = visitedStates t.log ++ (visited? e).toList :=
  filterMap_logged visited?

@[simp] lemma visitedStates_afterHook :
    visitedStates (t.afterHook point x).log = visitedStates t.log := filterMap_afterHook rfl

@[simp] lemma callsAt_logged :
    callsAt q (t.logged e).log = callsAt q t.log ++ (callAt? q e).toList :=
  filterMap_logged (callAt? q)

lemma callsAt_hook (log : List (Event α)) :
    callsAt q (log ++ [.hook point x]) = callsAt q log ++ if point = q then [x] else [] := by
  by_cases same : point = q <;> simp [callsAt, callAt?, same]

lemma callsAt_afterHook_of_ne (other : point ≠ q) :
    callsAt q (t.afterHook point x).log = callsAt q t.log :=
  filterMap_afterHook (if_neg other)

@[simp] lemma stepLog_logged : stepLog (t.logged e).log = (stepLog t.log).note e := by
  rw [stepLog, logged, List.foldl_append]
  rfl

@[simp] lemma stepLog_afterHook : stepLog (t.afterHook point x).log = stepLog t.log := by
  unfold afterHook
  split
  · rfl
  · simp [stepLog, StepLog.note]

/-- What an entry other than a call of a hook leaves alone. -/
lemma answersAt_logged (no_call : callAt? q e = none) :
    s.answersAt q (t.logged e).log = s.answersAt q t.log := by
  unfold answersAt
  rw [callsAt_logged, no_call, Option.toList_none, List.append_nil]

lemma answersAt_afterHook_of_ne (other : point ≠ q) :
    s.answersAt q (t.afterHook point x).log = s.answersAt q t.log := by
  unfold answersAt
  rw [callsAt_afterHook_of_ne other]

lemma asked_logged {r : HookRequest} (no_call : callAt? q e = none) :
    s.Asked r q (t.logged e).log ↔ s.Asked r q t.log := by
  rw [Asked, Asked, answersAt_logged no_call]

lemma asked_afterHook_of_ne {r : HookRequest} (other : point ≠ q) :
    s.Asked r q (t.afterHook point x).log ↔ s.Asked r q t.log := by
  rw [Asked, Asked, answersAt_afterHook_of_ne other]

lemma askedToExit_logged (no_call : ∀ point, callAt? point e = none) :
    s.AskedToExit (t.logged e).log ↔ s.AskedToExit t.log := by
  unfold AskedToExit
  simp only [asked_logged (no_call _)]

/-- The hook after the end comes too late to ask for it. -/
lemma askedToExit_afterHook_postsolve :
    s.AskedToExit (t.afterHook .postsolve x).log ↔ s.AskedToExit t.log := by
  unfold AskedToExit
  simp [asked_afterHook_of_ne]

end Entry

/-! ### The answer to a call -/

section Answer

variable {s t u : Solver α} {e : Event α} {point q : HookPoint} {x : Tensor α}

/-- The calls of a run from `s` are those in its log. -/
def Counted (s t : Solver α) : Prop :=
  ∀ point, t.calls point = s.calls point + (callsAt point t.log).length

lemma Keeps.calls (kept : Keeps s t) : t.calls = s.calls := by
  obtain ⟨_, _, rfl⟩ := kept
  rfl

lemma Counted.keeps (counted : Counted s t) (kept : Keeps t u) : Counted s u := by
  intro point
  rw [kept.calls, kept.log]
  exact counted point

lemma Counted.logged (counted : Counted s t) (no_call : ∀ point, callAt? point e = none) :
    Counted s (t.logged e) := by
  intro point
  rw [callsAt_logged, no_call, Option.toList_none, List.append_nil]
  exact counted point

/-- Calls are counted whatever the preconditioner is. -/
lemma Counted.rebuilt (counted : Counted s t) (p : Preconditioner α) :
    Counted s { t with preconditioner := p } := fun point => counted point

lemma Counted.afterHook (counted : Counted s t) : Counted s (t.afterHook point x) := by
  intro q
  unfold Solver.afterHook
  split
  · exact counted q
  · by_cases same : q = point
    · subst same
      simp [callsAt_hook, counted q, Nat.add_assoc]
    · simp [callsAt_hook, counted q, same, Ne.symm same]

/-- A call of a hook that is given adds its answer to those of the hook. -/
lemma answersAt_afterHook (counted : Counted s t) (same : t.settings = s.settings) {a : HookAnswer}
    (answer : t.hookAnswer point x = .ok a) :
    s.answersAt point (t.afterHook point x).log
      = s.answersAt point t.log ++ if (s.settings.hooks point).isSome then [a] else [] := by
  unfold hookAnswer at answer
  unfold answersAt Solver.afterHook
  rw [same] at answer ⊢
  match given : s.settings.hooks point with
  | none => rfl
  | some (.error e) =>
    rw [given] at answer
    cases answer
  | some (.ok hook) =>
    rw [given] at answer
    cases answer
    simp only [callsAt_hook, if_true, List.mapIdx_concat, ← counted point, Option.isSome_some]

/-- A hook that is not given asks for nothing. -/
lemma hookAnswer_of_none (same : t.settings = s.settings) {a : HookAnswer}
    (answer : t.hookAnswer point x = .ok a) (none : s.settings.hooks point = none) :
    a = .value .null := by
  unfold hookAnswer at answer
  rw [same, none] at answer
  exact (Except.ok.inj answer).symm

/-- A call adds its answer to those of its hook. -/
lemma asked_afterHook {r : HookRequest} (counted : Counted s t) (same : t.settings = s.settings)
    {a : HookAnswer} (answer : t.hookAnswer point x = .ok a) :
    s.Asked r point (t.afterHook point x).log ↔ s.Asked r point t.log ∨ a.asksFor r = true := by
  unfold Asked
  rw [answersAt_afterHook counted same answer]
  cases given : s.settings.hooks point with
  | none =>
    rw [hookAnswer_of_none same answer given]
    simp [HookAnswer.asksFor]
  | some hook =>
    simp only [Option.isSome_some, if_true, List.mem_append, List.mem_singleton, or_and_right,
      exists_or, exists_eq_left]

lemma askedToExit_afterHook (counted : Counted s t) (same : t.settings = s.settings)
    {a : HookAnswer} (answer : t.hookAnswer point x = .ok a) (early : point ≠ .postsolve) :
    s.AskedToExit (t.afterHook point x).log ↔ s.AskedToExit t.log ∨ a.asksFor .exit = true := by
  have called := asked_afterHook (r := .exit) counted same answer
  unfold AskedToExit
  cases point with
  | postsolve => exact absurd rfl early
  | presolve => simp [called, asked_afterHook_of_ne, or_right_comm]
  | prestep => simp [called, asked_afterHook_of_ne, or_comm, or_left_comm]
  | poststep => simp [called, asked_afterHook_of_ne, or_assoc]

end Answer

end Solver

end NewtonKrylov
