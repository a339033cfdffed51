import NewtonKrylov.Configuration.Settings
import NewtonKrylov.Proofs.Newton.OneStep
import NewtonKrylov.Proofs.Newton.Patience

/-!
# The end of an iteration

A hook can make an iteration go on where its tests or its limit would have ended it, so the limit
alone does not bound the number of passes. But behind each pass that another one follows, a hook has
asked for that or there is room for one more step. Each kind of pass has its own bound, and their
sum bounds the run.

A pass need not end itself if the line search in it has no limit. `Halts` is the end of a run in
which such searches may take any number of steps. At the end of this module there is a run that has
no end.

Up to there nothing depends on the arithmetic.
-/

namespace NewtonKrylov

namespace Solver

variable {α : Type} [CheckedScalar α]

/-! ### The number of passes -/

section Count

variable {F : NonlinearSystem α} {s : Solver α} {x : Tensor α} {limit : ℤ} {k bound : ℕ}

/-- Behind all passes but the last a hook has asked for another one or there was room for a step, so
the bounds for both kinds add up. -/
lemma Pending.lt_limit_add {it : Iteration α} {t : Solver α}
    (pending : Pending F s (.count limit) k it t) (few : s.insistences t.log k ≤ bound) :
    k < limit.toNat + bound := by
  have room : 0 < limit := by simpa using pending.room
  -- A pass is followed by another one for one of two reasons, and the second cannot hold behind the
  -- last pass that the limit allows.
  have either : Finset.range k ⊆
      ((Finset.range k).filter fun i => s.insists t.log i = true) ∪
        Finset.range (limit.toNat - 1) := by
    intro i mem
    obtain ⟨out, -, asked | ⟨below, -⟩⟩ := pending.behind i (Finset.mem_range.mp mem)
    · exact Finset.mem_union_left _ (Finset.mem_filter.mpr ⟨mem, asked⟩)
    · rw [Limit.allows_count, decide_eq_true_iff] at below
      exact Finset.mem_union_right _ (Finset.mem_range.mpr (by omega))
  have count : k ≤ s.insistences t.log k + (limit.toNat - 1) :=
    calc k = (Finset.range k).card := (Finset.card_range k).symm
      _ ≤ _ := Finset.card_le_card either
      _ ≤ _ := Finset.card_union_le _ _
      _ = s.insistences t.log k + (limit.toNat - 1) := by rw [Finset.card_range, insistences]
  omega

/-- An iteration that has no limit has the patience for `k` passes and one more. -/
def HasPatience {α : Type} (s : Solver α) (k : ℕ) : Prop :=
  ∀ patience cause, s.settings.maxIterations = .ok (.endless patience cause) → k < patience

lemma Pending.lt_room_add {l : Limit} {it : Iteration α} {t : Solver α}
    (pending : Pending F s l k it t) (max : s.settings.maxIterations = .ok l)
    (few : s.insistences t.log k ≤ bound) (patient : s.HasPatience k) : k < l.room + bound := by
  cases l with
  | count limit => exact pending.lt_limit_add few
  | endless patience cause => exact Nat.lt_add_right bound (patient patience cause max)

lemma Started.pending {norm : α} {it : Iteration α} {u : Solver α} {limit : Limit}
    (bound : s.system = some F) (started : Started F s x norm it u)
    (begins : (it.goesOn limit && !it.exited) = true) :
    Pending F s limit 0 it u := by
  obtain ⟨system, settings⟩ := started.kept
  obtain ⟨books, -, -⟩ := started.booked
  cases started with
  | @mk v t _ _ y r p _ vector allocated answer guarded value built keeps reach =>
    have log : u.log = ((((t.afterHook .presolve (Tensor.ofVec v)).logged
        (.guarded (Tensor.ofVec v))).logged (.evaluated y)).logged (.started y)).log := keeps.log
    -- The only answer so far is that of the hook before the start.
    have unanswered {point : HookPoint} (other : HookPoint.presolve ≠ point) :
        s.answersAt point u.log = [] := by
      rw [log, answersAt_logged rfl, answersAt_logged rfl, answersAt_logged rfl,
        answersAt_afterHook_of_ne other, allocated.log, answersAt_nil]
    have unrecorded : (stepLog u.log).recorded = [] := by
      rw [log]
      simp [allocated.log, StepLog.note]
    constructor
    case system => exact system.trans bound
    case settings => exact settings
    case room =>
      obtain ⟨⟨-, room⟩, -⟩ := by simpa [Iteration.goesOn] using begins
      exact room
    case counted => exact books.counted
    case prestep => simp [AnsweredAt, unanswered]
    case poststep => simp [AnsweredAt, unanswered]
    case iterations => rfl
    case stepPending => exact fun _ => rfl
    case recorded => rw [unrecorded, List.length_nil]
    case behind => exact fun i none => absurd none (Nat.not_lt_zero i)

/-- What is known where a pass begins. -/
lemma BeginsPass.pending {limit : Limit} (bound : s.system = some F)
    (max : s.settings.maxIterations = .ok limit) {it : Iteration α} {t : Solver α}
    (reached : BeginsPass s x k it t) :
    Pending F s limit k it t := by
  -- The induction is on the passes before this one.
  induction reached with
  | @start o t prepared begins =>
    obtain ⟨started, max', -⟩ := (prepare_leads bound x).result prepared
    rw [max, Except.ok.injEq] at max'
    subst max'
    exact started.pending bound begins
  | next reached again pending =>
    have passed := (pass_leads pending.system).result again
    obtain ⟨pre, post, out, hands⟩ := passed.handsOn pending.counted pending.settings max
    obtain ⟨system, settings⟩ := passed.kept
    exact pending.next hands system settings

lemma BeginsPass.lt_limit_add (bound : s.system = some F)
    (max : s.settings.maxIterations = .ok (.count limit)) {M : ℕ}
    (few : ∀ k it t, BeginsPass s x k it t → s.insistences t.log k ≤ M) {it : Iteration α}
    {t : Solver α} (reached : BeginsPass s x k it t) : k < limit.toNat + M :=
  (reached.pending bound max).lt_limit_add (few k it t reached)

/-- The passes of a run come to an end, and as soon as there is room for so many of them, bounding
their number changes nothing. -/
lemma BeginsPass.exists_loops (bound : s.system = some F)
    (max : s.settings.maxIterations = .ok (.count limit)) {M : ℕ}
    (few : ∀ k it t, BeginsPass s x k it t → s.insistences t.log k ≤ M) (n : ℕ)
    {it : Iteration α} {t : Solver α} (reached : BeginsPass s x k it t)
    (enough : limit.toNat + M ≤ k + n) :
    ∃ r u, Loops it t r u ∧ (∀ m, n ≤ m → (passes m it).run t = (r, u)) ∧
      ∀ last, r = .ok last → last.iterations ≤ limit.toNat + M := by
  have lt := reached.lt_limit_add bound max few
  have pending := reached.pending bound max
  -- The induction is on the passes that may still follow. One that begins is among them, so there
  -- is always one left.
  induction n generalizing k it t with
  | zero => omega
  | succ n ih =>
    rcases run : (pass it).run t with ⟨e | ⟨it', again⟩, u⟩
    · refine ⟨.error e, u, .failure run, fun m le => ?_, nofun⟩
      obtain ⟨m, rfl⟩ := Nat.exists_eq_add_of_le' le
      exact run_bind_of_error run
    cases again with
    | false =>
      refine ⟨.ok it', u, .stop run, fun m le => ?_, ?_⟩
      · obtain ⟨m, rfl⟩ := Nat.exists_eq_add_of_le' le
        exact run_bind_of_ok run
      · rintro last ⟨⟩
        have := ((pass_leads pending.system).result run).iterations_le
        rw [pending.iterations] at this
        omega
    | true =>
      have next := reached.next run
      obtain ⟨r, v, loops, same, le⟩ := ih next (by omega)
        (next.lt_limit_add bound max few) (next.pending bound max)
      refine ⟨r, v, .again run loops, fun m room => ?_, le⟩
      obtain ⟨m, rfl⟩ := Nat.exists_eq_add_of_le' room
      exact (run_bind_of_ok run).trans (same (m + n) (by omega))

end Count

/-! ### The whole run -/

section Run

variable {F : NonlinearSystem α} {s : Solver α} {x : Tensor α} {limit : ℤ}

omit [CheckedScalar α] in
lemma iterations_of_conclude {norm : α} {it : Iteration α} {t u : Solver α} {sol : Solution α}
    (concluded : (conclude norm it).run t = (.ok sol, u)) : sol.iterations = it.iterations := by
  obtain ⟨_, -, -, rfl⟩ := (conclude_leads norm it).result concluded
  rfl

omit [CheckedScalar α] in
/-- Nothing is attempted behind the passes. -/
lemma Unattempted.conclude {norm : α} {it : Iteration α} {t u : Solver α}
    {r : Except Error (Solution α)} (unattempted : Unattempted t.log)
    (concluded : (conclude norm it).run t = (r, u)) : Unattempted u.log := by
  have leads := conclude_leads (s := t) norm it
  cases r with
  | error e =>
    rw [leads.failure concluded]
    exact unattempted
  | ok sol =>
    obtain ⟨_, -, rfl, -⟩ := leads.result concluded
    exact unattempted.afterHook .postsolve it.state

/-- An end of a run that keeps to the bounds for its passes. -/
structure EndsWithin (s : Solver α) (x : Tensor α) (limit : ℤ) (M : ℕ)
    (r : Except Error (Solution α)) (u : Solver α) : Prop where
  ends : Ends s x r u
  run : ∀ N, limit.toNat + M ≤ N → (runWithin N x).run s = (r, u)
  iterations : ∀ sol, r = .ok sol → sol.iterations ≤ limit.toNat + M
  unattempted : limit ≤ 0 → Unattempted u.log

section Ends

variable {M : ℕ}

/-- A run that fails before its passes. -/
lemma endsWithin_early (bound : s.system = some F) {e : Error} {t : Solver α}
    (prepared : (prepare x).run s = (.error e, t)) : EndsWithin s x limit M (.error e) t where
  ends := .early prepared
  run _ _ := run_bind_of_error prepared
  iterations := nofun
  unattempted _ := ((prepare_leads bound x).failure prepared).unattempted

variable {o : Outset α} {t : Solver α}

/-- A run without a pass. -/
lemma exists_endsWithin_behindStart (bound : s.system = some F)
    (prepared : (prepare x).run s = (.ok o, t)) (begins : o.begins = false) :
    ∃ r u, EndsWithin s x limit M r u := by
  obtain ⟨started, -⟩ := (prepare_leads bound x).result prepared
  have runWithin_run := runWithin_run_of_prepared prepared
  rw [begins] at runWithin_run
  rcases concluded : (conclude o.norm o.start).run t with ⟨r, u⟩
  refine ⟨r, u, .behindStart prepared begins concluded,
    fun N _ => (runWithin_run N).trans concluded, ?_,
    fun _ => started.unattempted.conclude concluded⟩
  rintro sol rfl
  rw [iterations_of_conclude concluded, started.iterations]
  exact Nat.zero_le _

/-- A run with passes fails in one of them, or comes through them all. -/
lemma exists_endsWithin_behindPasses (bound : s.system = some F)
    (max : s.settings.maxIterations = .ok (.count limit))
    (few : ∀ k it t, BeginsPass s x k it t → s.insistences t.log k ≤ M)
    (prepared : (prepare x).run s = (.ok o, t)) (begins : o.begins = true) :
    ∃ r u, EndsWithin s x limit M r u := by
  have runWithin_run := runWithin_run_of_prepared prepared
  rw [begins] at runWithin_run
  have reached : BeginsPass s x 0 o.start t := .start prepared begins
  have positive : 0 < limit := by simpa using (reached.pending bound max).room
  obtain ⟨r, u, loops, passes_run, le⟩ :=
    reached.exists_loops bound max few (limit.toNat + M) (Nat.le_add_left _ _)
  cases r with
  | error e =>
    refine ⟨.error e, u, .failure prepared begins loops, fun N enough => ?_, nofun,
      fun none => absurd positive none.not_gt⟩
    exact (runWithin_run N).trans (run_bind_of_error (passes_run N enough))
  | ok last =>
    rcases concluded : (conclude o.norm last).run u with ⟨r, v⟩
    refine ⟨r, v, .behindPasses prepared begins loops concluded, fun N enough => ?_, ?_,
      fun none => absurd positive none.not_gt⟩
    · exact (runWithin_run N).trans ((run_bind_of_ok (passes_run N enough)).trans concluded)
    · rintro sol rfl
      rw [iterations_of_conclude concluded]
      exact le last rfl

/-- Every run comes to an end of this kind. -/
lemma exists_endsWithin (bound : s.system = some F)
    (max : s.settings.maxIterations = .ok (.count limit))
    (few : ∀ k it t, BeginsPass s x k it t → s.insistences t.log k ≤ M) :
    ∃ r u, EndsWithin s x limit M r u := by
  rcases prepared : (prepare x).run s with ⟨e | o, t⟩
  · exact ⟨.error e, t, endsWithin_early bound prepared⟩
  cases begins : o.begins with
  | false => exact exists_endsWithin_behindStart bound prepared begins
  | true => exact exists_endsWithin_behindPasses bound max few prepared begins

end Ends

/-! ### Line searches without a limit -/

/-- The run from `s` and `x` comes to this, when any number of passes may follow and line searches
that have no limit may take any number of steps. -/
def Halts (s : Solver α) (x : Tensor α) (r : Except Error (Solution α)) : Prop :=
  ∃ n, ∀ k, n ≤ k → ∀ cause, ∃ u, Ends (s.patient k cause) x r u

end Run

/-! ### A line search that does not end -/

section Insatiable

/-- One iteration, whose line search may take any number of steps, and which does not end however
little the scale changes. -/
def insatiable : Configuration :=
  (((Configuration.default.set .newtonSteps (.int 1)).set .newtonTolerance (.float 0)).set
    .searchSteps (.float (1 / 0))).set .searchTolerance (.float (-1))

/-- A residual that is next to nothing up to some point and huge behind it. -/
def cliff : NonlinearSystem Float :=
  ⟨fun x => .ok (x.map fun a => if a < 1e-8 then 3e-162 else 1.3e154), .none⟩

/-- An iteration with these settings. -/
def climbing : Solver Float where
  settings := insatiable.settings (fun _ => none) 0
  system := some cliff
  preconditioner := .identity

/-- Solvers that differ in what a linear solve does not read. -/
def AlikeForCycles {α : Type} (s t : Solver α) : Prop :=
  ∃ limit calls files log, t = { s with
    settings := { s.settings with searchSteps := limit }, calls := calls, files := files,
    log := log }

lemma takesSameCycles_alike {α : Type} [Scalar α] :
    TakesSameCycles (AlikeForCycles : Solver α → Solver α → Prop) where
  restarts := by
    rintro s _ ⟨_, _, _, _, rfl⟩
    rfl
  tolerance := by
    rintro s _ ⟨_, _, _, _, rfl⟩
    rfl
  directory := by
    rintro s _ ⟨_, _, _, _, rfl⟩
    rfl
  action := by
    rintro s _ ⟨_, _, _, _, rfl⟩
    rfl
  unallocated := by
    rintro s _ ⟨_, _, _, _, rfl⟩ none
    exact none
  cycle := by
    rintro s _ ws x r rₖ norm ⟨limit, calls, files, log, rfl⟩ given
    exact ⟨ws, given, rfl, fun used _ => ⟨limit, calls, files, log, rfl⟩⟩
  report := by
    rintro s _ f ⟨limit, calls, files, log, rfl⟩
    exact ⟨limit, calls, f files, log, rfl⟩

/-- The residual at the state to start from. -/
def foot : Tensor Float := (Tensor.ofVec [0]).map fun a => if a < 1e-8 then 3e-162 else 1.3e154

/-- The work space of the linear solve. -/
def allocatedClimbing : Solver Float := { climbing with workspace := some (.empty 1 1) }

/-- The search along a step comes to the scale zero and stays there. -/
def lingersAlong (dx : Tensor Float) : Bool :=
  match normAfter cliff (.ofVec [0]) dx with
  | .error _ => false
  | .ok c => decide (¬ c ≤ foot.norm) &&
      LineSearch.lingers (fun s => normAfter cliff (.ofVec [0]) (dx.smul s)) foot.norm c
        (.ofNumber (-1)) 27

/-- The linear solve proposes a step that is no number, and no scale of it is small enough. -/
lemma exists_linearSolve_climbing : ∃ dx norms,
    ((linearSolve (.ofVec [0]) foot foot.norm 1).run allocatedClimbing).1 = .ok (dx, norms) ∧
      lingersAlong dx = true := by
  have lingers : (match ((linearSolve (.ofVec [0]) foot foot.norm 1).run allocatedClimbing).1 with
      | .error _ => false
      | .ok result => lingersAlong result.1) = true := by
    decide +kernel
  rcases run : ((linearSolve (.ofVec [0]) foot foot.norm 1).run allocatedClimbing).1 with e | result
  · simp [run] at lingers
  · rw [run] at lingers
    exact ⟨result.1, result.2, rfl, lingers⟩

lemma searchSteps_climbing (k : ℕ) (cause : Error) :
    (climbing.patient k cause).settings.searchSteps = .ok (.endless k cause) := by
  have endless : climbing.settings.searchSteps
      = .ok (.endless Configuration.patience .passLimit) := by
    decide +kernel
  rw [patient, Settings.limitSearches, endless]
  rfl

/-- The only step of such an iteration is given up in its line search. -/
lemma newtonStep_run_climbing {k : ℕ} {cause : Error} {s : Solver Float}
    (alike : AlikeForCycles allocatedClimbing s)
    (settings : s.settings = (climbing.patient k cause).settings) (bound : s.system = some cliff) :
    ∃ t, (newtonStep (.ofVec [0]) foot foot.norm 1).run s = (.error cause, t) := by
  obtain ⟨dx, norms, result, lingers⟩ := exists_linearSolve_climbing
  rw [(takesSameCycles_alike.linearSolve (.ofVec [0]) foot foot.norm 1 alike).1] at result
  rcases solved : (linearSolve (.ofVec [0]) foot foot.norm 1).run s with ⟨_, t⟩
  obtain rfl : _ = _ := (congrArg Prod.fst solved).symm.trans result
  have kept := (linearSolve_stays (.ofVec [0]) foot foot.norm 1 s).result solved
  unfold lingersAlong at lingers
  rcases value : normAfter cliff (.ofVec [0]) dx with e | c
  · simp [value] at lingers
  rw [value] at lingers
  obtain ⟨increased, lingers⟩ := Bool.and_eq_true_iff.mp lingers
  have fails : searchAlong cliff t.settings (.ofVec [0]) dx foot.norm c = .error cause := by
    unfold searchAlong
    rw [kept.settings, settings, searchSteps_climbing]
    exact LineSearch.searchWithin_eq_error_of_lingers lingers k cause
  exact ⟨t, newtonStep_run_of_searchAlong solved (kept.system.trans bound) rfl value
    (of_decide_eq_true increased) fails⟩

lemma quiet_climbing (k : ℕ) (cause : Error) :
    (climbing.patient k cause).settings.Quiet 0 (.count 1) where
  unhooked point := by cases point <;> rfl
  unset := rfl
  maxIterations := rfl
  tolerance := rfl
  directory := nofun

/-- A pass begins at the state to start from. -/
lemma prepare_climbing (k : ℕ) (cause : Error) : ∃ o t,
    (prepare ⟨[1], [0]⟩).run (climbing.patient k cause) = (.ok o, t) ∧ o.begins = true ∧
      o.start = .starting 0 (.ofVec [0]) foot.norm ∧
      t.settings = (climbing.patient k cause).settings ∧ t.system = some cliff ∧
      t.preconditioner = .identity ∧ t.workspace = some (.empty 1 1) := by
  have allocates : Leads (allocate (List.length [(0 : Float)]))
      { climbing.patient k cause with log := [] } (fun _ t => t.workspace = some (.empty 1 1))
      fun _ => False := by
    unfold allocate
    rw [leads_bind, leads_get]
    exact .ok_bind rfl (.ok_bind rfl (.ok_bind rfl rfl))
  obtain ⟨o, t, prepared, rfl, settings, system, preconditioner, workspace, -⟩ :=
    ((quiet_climbing k cause).prepare_leads (F := cliff) (x := ⟨[1], [0]⟩) (v := [0])
      (y := .ofVec [0]) (r := foot) (p := .identity) (W := (· = some (.empty 1 1))) rfl rfl
      allocates rfl rfl rfl).exists_ok
  have positive : ¬ foot.norm ≤ 0 := by decide +kernel
  refine ⟨_, t, prepared, ?_, rfl, settings, system, preconditioner, workspace⟩
  simp [Outset.begins, Iteration.goesOn, Iteration.starting, positive]

/-- The pass that begins is given up. -/
lemma passes_climbing (k : ℕ) (cause : Error) : ∃ o t u,
    (prepare ⟨[1], [0]⟩).run (climbing.patient k cause) = (.ok o, t) ∧ o.begins = true ∧
      (pass o.start).run t = (.error cause, u) := by
  obtain ⟨o, t, prepared, begins, start, settings, system, preconditioner, workspace⟩ :=
    prepare_climbing k cause
  have answer : t.hookAnswer .prestep (.ofVec [0]) = .ok (.value .null) := by
    unfold hookAnswer
    rw [settings]
    rfl
  -- Up to the step nothing has changed but the log, which a linear solve does not read.
  have alike : AlikeForCycles allocatedClimbing (t.beforeStep (.ofVec [0])) := by
    have uncalled : t.afterHook .prestep (.ofVec [0]) = t := by
      unfold afterHook
      rw [settings]
      rfl
    rw [beforeStep, uncalled]
    obtain ⟨_, _, _, _, calls, files, log⟩ := t
    subst settings system preconditioner workspace
    exact ⟨_, calls, files, _, rfl⟩
  have inForce : (t.beforeStep (.ofVec [0])).settings = (climbing.patient k cause).settings := by
    simpa using settings
  have bound : (t.beforeStep (.ofVec [0])).system = some cliff := by
    rw [beforeStep_system, system]
  obtain ⟨u, fails⟩ := newtonStep_run_climbing alike inForce bound
  refine ⟨o, t, u, prepared, begins, ?_⟩
  rw [start]
  exact pass_run_of_newtonStep answer rfl system rfl fails

/-- However patient it is, the search uses up all of its patience. -/
lemma ends_climbing {k : ℕ} {cause : Error} {r : Except Error (Solution Float)} {u : Solver Float}
    (ends : Ends (climbing.patient k cause) ⟨[1], [0]⟩ r u) : r = .error cause := by
  obtain ⟨o, t, v, prepared, begins, fails⟩ := passes_climbing k cause
  have given_up {it : Except Error (Iteration Float)} {w : Solver Float}
      (loops : Loops o.start t it w) : it = .error cause := by
    cases loops with
    | stop stops => cases fails.symm.trans stops
    | failure fails' => cases fails.symm.trans fails'; rfl
    | again goes_on => cases fails.symm.trans goes_on
  cases ends with
  | early fails' => cases prepared.symm.trans fails'
  | failure prepared' _ loops =>
    cases prepared.symm.trans prepared'
    exact congrArg _ (Except.error.inj (given_up loops))
  | behindPasses prepared' _ loops =>
    cases prepared.symm.trans prepared'
    cases given_up loops
  | behindStart prepared' ends =>
    cases prepared.symm.trans prepared'
    cases begins.symm.trans ends

end Insatiable

end Solver

end NewtonKrylov
