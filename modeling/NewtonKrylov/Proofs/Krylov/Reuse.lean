import NewtonKrylov.Proofs.Exact
import NewtonKrylov.Proofs.Krylov.Steps

/-!
# Work spaces that are used again

A work space is handed from cycle to cycle, and what a cycle leaves in it is overwritten bit by bit
by the next one. A cycle that fails in the middle of a step leaves parts that do not fit together: a
direction without an image, or an image without a coefficient. The next cycle forgets all of it, so
by `run_after_uses` it comes to the same and leaves the same as on a new work space, whatever the
work space was used for.

A cycle that goes through has taken as many steps as there are directions, columns and coefficients.
So the places of the work space behind these are empty.

Nothing here depends on the arithmetic.
-/

namespace NewtonKrylov

namespace Cycle

open Vec

variable {α : Type} [Scalar α]

/-! ### Counting -/

/-- A work space after `k` complete steps. -/
structure Complete (k : ℕ) (ws : Workspace α) : Prop where
  basis : ws.basis.length = k
  size : ws.factorization.size = k
  coefficients : ws.coefficients.length = k

omit [Scalar α] in
lemma complete_reset (ws : Workspace α) : Complete 0 ws.reset := ⟨rfl, rfl, rfl⟩

variable {op : Operator α} {ν tolerance : Setting α} {p : Progress α} {ws : Workspace α} {k : ℕ}

/-- A step that goes through adds a direction, a column and a coefficient. -/
lemma StepsTo.complete {p' : Progress α} {ws' : Workspace α} (next : StepsTo p ws p' ws')
    (complete : Complete k ws) : Complete (k + 1) ws' := by
  cases next with
  | intro choice z w a =>
    constructor
    · simp [Workspace.record, complete.basis]
    · rw [Factorization.size_push]
      exact congrArg (· + 1) complete.size
    · simp [complete.coefficients]

/-- The loop adds one of each for every norm that it returns, and returns no more than it may. -/
lemma Complete.iterate (complete : Complete k ws) (N : ℕ) :
    Leads (iterate op ν tolerance N p) ws
      (fun result ws' => Complete (k + result.2.length) ws' ∧ result.2.length ≤ N)
      fun _ => True := by
  induction N generalizing k p ws with
  | zero => exact ⟨complete, le_rfl⟩
  | succ N ih =>
    rw [Cycle.iterate]
    refine (step_stepsTo op ν p ws).bind fun p' ws' step => .lift_bind trivial fun bound _ => ?_
    have next := step.complete complete
    split_ifs
    · exact ⟨next, Nat.succ_le_succ (Nat.zero_le N)⟩
    · refine (ih next).bind fun result ws'' kept => ?_
      obtain ⟨rest, atMost⟩ := kept
      refine ⟨?_, Nat.succ_le_succ atMost⟩
      rwa [List.length_cons, Nat.add_comm result.2.length, ← Nat.add_assoc]

/-! ### The end of a cycle -/

/-- What a cycle leaves that has gone through: one direction and one column for each step, and
nothing in the places behind them. A limit below zero allows as many steps as the limit zero. -/
structure Tidy (limit : ℤ) (out : Outcome α) (ws : Workspace α) : Prop where
  choices : ws.choices.length = out.steps
  size : ws.factorization.size = out.steps
  history : out.history.length = out.steps
  atMost : (out.steps : ℤ) ≤ max 0 limit
  directions : ∀ row ∈ ws.directionArena, row.drop out.steps = zeros (ws.capacity - out.steps)
  coefficients : ws.coefficientArena.drop out.steps = zeros (ws.capacity - out.steps)

lemma Complete.drop_directionArena (complete : Complete k ws) :
    ∀ row ∈ ws.directionArena, row.drop k = zeros (ws.capacity - k) := by
  intro row member
  obtain ⟨i, -, rfl⟩ := List.mem_map.mp member
  have used : (ws.directions.map (·.getD i 0)).length = k := by
    rw [Workspace.directions, List.length_map, List.length_map, complete.basis]
  have unused : (zeros ws.dimension : Vec α).getD i 0 = 0 := by
    simp [zeros, List.getD_eq_getElem?_getD, List.getElem?_replicate]
    split_ifs <;> rfl
  rw [List.map_append, List.drop_left' used, List.map_replicate, unused, complete.basis]
  rfl

lemma Complete.drop_coefficientArena (complete : Complete k ws) :
    ws.coefficientArena.drop k = zeros (ws.capacity - k) := by
  rw [Workspace.coefficientArena, List.drop_left' complete.coefficients, complete.coefficients]

lemma Complete.tidy (complete : Complete k ws) {limit : ℤ} {out : Outcome α} (steps : out.steps = k)
    (history : out.history.length = k) (atMost : (k : ℤ) ≤ max 0 limit) : Tidy limit out ws where
  choices := by rw [Workspace.choices, List.length_map, complete.basis, steps]
  size := by rw [complete.size, steps]
  history := by rw [history, steps]
  atMost := by rwa [steps]
  directions := by
    rw [steps]
    exact complete.drop_directionArena
  coefficients := by
    rw [steps]
    exact complete.drop_coefficientArena

/-- Every cycle that goes through leaves its work space tidy. -/
theorem run_tidy (op : Operator α) (r : Tensor α) (norm : α) (ν tolerance : Setting α)
    (maxSteps : ℤ) (ws : Workspace α) :
    Leads (run op r norm ν tolerance maxSteps) ws
      (Tidy (min maxSteps ws.capacity)) fun _ => True := by
  -- After the reset nothing of the last cycle is left, and every step adds one to each part.
  have start := complete_reset ws
  have no_steps : ((0 : ℕ) : ℤ) ≤ max 0 (min maxSteps ws.capacity) := le_max_left _ _
  unfold run
  rw [leads_bind, leads_modify, leads_bind, leads_get]
  extract_lets steps
  split_ifs
  · exact start.tidy rfl rfl no_steps
  · exact start.tidy rfl rfl no_steps
  refine (start.iterate steps).bind fun result ws' kept => ?_
  obtain ⟨last, norms⟩ := result
  obtain ⟨complete, atMost⟩ := kept
  rw [leads_bind, leads_get]
  refine .lift_bind trivial fun y _ => ?_
  rw [Nat.zero_add] at complete
  refine complete.tidy rfl rfl ?_
  have bound : norms.length ≤ (min maxSteps ws.capacity).toNat := atMost
  change (norms.length : ℤ) ≤ max 0 (min maxSteps ws.capacity)
  omega

/-! ### Uses of a work space -/

/-- What a work space can be used for. -/
inductive Use (α : Type) where
  | reset
  | cycle (op : Operator α) (r : Tensor α) (norm : α) (threshold tolerance : Setting α)
      (maxSteps : ℤ)

/-- The work space after a use. The cycle may have gone through or failed. -/
def Use.leave (ws : Workspace α) : Use α → Workspace α
  | .reset => ws.reset
  | .cycle op r norm₀ ν tolerance maxSteps => ((run op r norm₀ ν tolerance maxSteps).run ws).2

/-- Every use leaves a work space for the same dimension and as many steps. -/
lemma Use.reset_leave (ws : Workspace α) (use : Use α) : (use.leave ws).reset = ws.reset := by
  cases use with
  | reset => rfl
  | cycle op r norm ν tolerance maxSteps => exact (run_keepsSize _ _ _ _ _ _ ws).state

lemma reset_foldl_leave (uses : List (Use α)) (ws : Workspace α) :
    (uses.foldl Use.leave ws).reset = ws.reset := by
  induction uses generalizing ws with
  | nil => rfl
  | cons use uses ih => rw [List.foldl_cons, ih, use.reset_leave]

variable {n m : ℤ} {fresh : Workspace α}

/-- The first thing that a cycle does is to forget what a work space was used for. -/
lemma run_foldl_leave (uses : List (Use α)) (ws : Workspace α) (op : Operator α) (r : Tensor α)
    (norm : α) (ν tolerance : Setting α) (maxSteps : ℤ) :
    (run op r norm ν tolerance maxSteps).run (uses.foldl Use.leave ws)
      = (run op r norm ν tolerance maxSteps).run ws :=
  run_congr (reset_foldl_leave uses ws) op r norm ν tolerance maxSteps

/-- A cycle that goes through on a new work space leaves it tidy. -/
lemma tidy_of_created (created : Workspace.create n m = .ok fresh) {op : Operator α} {r : Tensor α}
    {norm : α} {ν tolerance : Setting α} {maxSteps : ℤ} {out : Outcome α} {ws : Workspace α}
    (ran : (run op r norm ν tolerance maxSteps).run fresh = (.ok out, ws)) :
    ws.reset = fresh ∧ Tidy (min maxSteps m) out ws := by
  obtain ⟨-, capacity, rfl⟩ := (Workspace.create_eq_ok_iff _ _ _).mp created
  have tidy := (run_tidy op r norm ν tolerance maxSteps _).result ran
  refine ⟨(run_keepsSize op r norm ν tolerance maxSteps _).result ran, { tidy with atMost := ?_ }⟩
  have atMost := tidy.atMost
  change _ ≤ max 0 (min maxSteps ((min m n).toNat : ℤ)) at atMost
  omega

/-- After any uses of a work space, cycles that failed half way among them, a cycle with any
operator comes to the same as on a new work space and leaves the same. If it goes through, it leaves
the work space tidy. -/
theorem run_after_uses (created : Workspace.create n m = .ok fresh) (uses : List (Use α))
    (op : Operator α) (r : Tensor α) (norm : α) (ν tolerance : Setting α) (maxSteps : ℤ) :
    (run op r norm ν tolerance maxSteps).run (uses.foldl Use.leave fresh)
        = (run op r norm ν tolerance maxSteps).run fresh ∧
      ∀ out ws,
        (run op r norm ν tolerance maxSteps).run (uses.foldl Use.leave fresh) = (.ok out, ws) →
        ws.reset = fresh ∧ Tidy (min maxSteps m) out ws := by
  have same := run_foldl_leave uses fresh op r norm ν tolerance maxSteps
  refine ⟨same, ?_⟩
  intro out ws ran
  rw [same] at ran
  exact tidy_of_created created ran

/-- A cycle with an operator that fails in the first step. -/
noncomputable def failedUse : Use ℝ :=
  .cycle (fun _ => .error .wrongType) (Tensor.ofVec [2]) 2 (.ok 0) (.ok 0) 1

/-- What the failed cycle leaves: a direction without a column. -/
noncomputable def leftover : Workspace ℝ := { Workspace.empty 1 1 with basis := [(.residual, [1])] }

lemma leave_failedUse : Use.leave (.empty 1 1) failedUse = leftover := by
  have nonzero : ((2 : ℝ) == 0) = false := by simp
  simp [failedUse, leftover, Use.leave, run, iterate, step, nextDirection, nonzero,
    Workspace.reset, Workspace.empty, DirectionSource.direction, ExceptT.run_bind, stateM_bind]
  rfl

/-- A cycle with another operator goes through on what the failed one has left. -/
theorem run_after_uses_failed :
    ∃ out ws,
      (run Except.ok (Tensor.ofVec [3]) 3 (.ok 0) (.ok 0) 1).run leftover = (.ok out, ws) ∧
      ws.reset = .empty 1 1 ∧ Tidy 1 out ws := by
  obtain ⟨same, tidy⟩ := run_after_uses (n := 1) (m := 1) rfl [.reset, failedUse]
    Except.ok (Tensor.ofVec [3]) 3 (.ok 0) (.ok (0 : ℝ)) 1
  obtain ⟨out, ws, ran, -, -, -⟩ := run_counted (α := ℝ) KeepsLength.ok le_rfl
    (show (Workspace.empty 1 1).reset = _ from rfl) (show [(3 : ℝ)].length = 1 from rfl) 3 0 0 1
  change (run _ _ _ _ _ _).run (Use.leave (.empty 1 1) failedUse) = _ at same
  rw [leave_failedUse] at same
  have again := same.trans ran
  rw [← leave_failedUse] at again
  exact ⟨out, ws, same.trans ran, tidy out ws again⟩

/-- A cycle that is allowed fewer than no steps goes through without a step. -/
theorem steps_exceed_negative_limit :
    ∃ (fresh : Workspace Float) (out : Outcome Float) (ws : Workspace Float),
      Workspace.create 1 1 = .ok fresh ∧
      (run Except.ok (Tensor.ofVec [1]) 1 (.ok 0) (.ok 0) (-1)).run fresh = (.ok out, ws) ∧
      ¬ (out.steps : ℤ) ≤ min (-1) 1 := by
  refine ⟨.empty 1 1, _, _, rfl, run_of_no_step (.inr ?_), ?_⟩
  · rfl
  · decide

end Cycle

end NewtonKrylov
