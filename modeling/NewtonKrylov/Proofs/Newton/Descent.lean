import NewtonKrylov.Proofs.Comparison
import NewtonKrylov.Proofs.LineSearch.Run
import NewtonKrylov.Proofs.Newton.Run

/-!
# The residual norm never increases

A step is taken in one of two ways. The full step is taken if its norm compares as not larger, and a
step that a line search has shrunk if its norm compares as smaller. Either comparison is false as
soon as one of the norms is undefined, so no step leads to such a norm or starts from one. The norm
that a pass compares with is computed anew, and it is the one recorded before, since both are the
norm of the residual at the same state.
-/

namespace NewtonKrylov

namespace Solver

variable {α : Type} [CheckedScalar α] {F : NonlinearSystem α}

/-- The residual at `y` has the norm `c`. -/
def HasNorm (F : NonlinearSystem α) (y : Tensor α) (c : α) : Prop :=
  ∃ r, F.residual y = .ok r ∧ r.norm = c

lemma HasNorm.unique {y : Tensor α} {c d : α} (first : HasNorm F y c) (second : HasNorm F y d) :
    c = d := by
  obtain ⟨r, value, rfl⟩ := first
  obtain ⟨_, value', rfl⟩ := second
  rw [value] at value'
  cases value'
  rfl

/-- The norms at the states of an iteration, none of which is larger than the one before. -/
structure Descends (F : NonlinearSystem α) (states : List (Tensor α)) (norms : List α) : Prop where
  hasNorm : List.Forall₂ (HasNorm F) states norms
  isChain : norms.IsChain fun before after => after ≤ before

lemma Descends.nil : Descends F [] [] := ⟨.nil, .nil⟩

lemma Descends.singleton {y : Tensor α} {c : α} (hasNorm : HasNorm F y c) : Descends F [y] [c] :=
  ⟨.cons hasNorm .nil, .singleton c⟩

lemma Descends.concat {states : List (Tensor α)} {first : α} {norms : List α}
    (descends : Descends F states (first :: norms)) {y : Tensor α} {c : α}
    (hasNorm : HasNorm F y c) (le : c ≤ norms.getLastD first) :
    Descends F (states ++ [y]) (first :: (norms ++ [c])) where
  hasNorm := List.rel_append descends.hasNorm (.cons hasNorm .nil)
  isChain := by
    rw [← List.cons_append, List.isChain_append]
    refine ⟨descends.isChain, .singleton c, ?_⟩
    intro last at_last next at_head
    rw [List.getLast?_cons, Option.mem_some] at at_last
    rw [List.head?_cons, Option.mem_some] at at_head
    rwa [← at_last, ← at_head, ← List.getLastD_eq_getLast?]

/-- The last norm is that at the last state. -/
lemma Descends.hasNorm_getLast {states : List (Tensor α)} {first : α} {norms : List α}
    (descends : Descends F states (first :: norms)) {y : Tensor α}
    (last : states.getLast? = some y) : HasNorm F y (norms.getLastD first) := by
  have last' : (first :: norms).getLast? = some (norms.getLastD first) := by
    rw [List.getLast?_cons, List.getLastD_eq_getLast?]
  rw [List.getLast?_eq_head?_reverse] at last last'
  have reversed := List.forall₂_reverse_iff.mpr descends.hasNorm
  generalize states.reverse = ys, (first :: norms).reverse = cs at last last' reversed
  cases reversed with
  | nil => cases last
  | cons hasNorm _ =>
    rw [List.head?_cons, Option.some.injEq] at last last'
    rwa [last, last'] at hasNorm

/-! ### One step -/

section Step

lemma hasNorm_of_normAfter {x dx y : Tensor α} {c : α} (value : normAfter F x dx = .ok c)
    (moved : Tensor.combine (· - ·) x dx = .ok y) : HasNorm F y c := by
  obtain ⟨y', moved', value⟩ := bind_eq_ok.mp value
  obtain rfl : y = y' := Except.ok.inj (moved.symm.trans moved')
  obtain ⟨r, at_y, ⟨⟩⟩ := bind_eq_ok.mp value
  exact ⟨r, at_y, rfl⟩

variable [LawfulComparison α]

/-- A step that is taken does not increase the norm, and the norm that comes with it is that of the
new state. -/
lemma Attempted.descends {settings : Settings α} {x y : Tensor α} {norm : α} {out : StepOutcome α}
    (attempted : Attempted F settings x norm out) (taken : out.state = some y) :
    HasNorm F y out.norm ∧ out.norm ≤ norm := by
  obtain ⟨_, _, _, -, -, value, settled⟩ := attempted
  cases settled with
  | full le moved =>
    cases taken
    exact ⟨hasNorm_of_normAfter value moved, le⟩
  | searched _ search lt _ moved =>
    cases taken
    exact ⟨hasNorm_of_normAfter (normAfter_of_searchAlong search) moved,
      LawfulComparison.le_of_lt lt⟩
  | rejected => cases taken

lemma Attempts.descends {s u : Solver α} {it : Iteration α} {pre : HookAnswer}
    {out : StepOutcome α} (attempts : Attempts F s it pre out u) {y : Tensor α}
    (taken : out.state = some y) {c : α} (hasNorm : HasNorm F it.state c) :
    HasNorm F y out.norm ∧ out.norm ≤ c := by
  obtain ⟨r, value, attempted⟩ := attempts.attempted
  obtain rfl : r.norm = c := HasNorm.unique ⟨r, value, rfl⟩ hasNorm
  exact attempted.descends taken

end Step

/-! ### A whole run -/

/-- Before each pass the last recorded state is the present one, and its norm the last recorded. -/
structure Recorded (F : NonlinearSystem α) (norm : α) (it : Iteration α) (s : Solver α) : Prop where
  descends : Descends F (recordedStates s.log) (norm :: it.norms)
  state : (recordedStates s.log).getLast? = some it.state
  hasNorm : HasNorm F it.state (it.norms.getLastD norm)

/-- After the last pass the present state may be one that was not recorded. -/
structure Accepted (F : NonlinearSystem α) (norm : α) (it : Iteration α) (s : Solver α) : Prop where
  descends : Descends F (recordedStates s.log) (norm :: it.norms)
  state : (recordedStates s.log).getLast? = some it.state ∨
    ∃ c, HasNorm F it.state c ∧ c ≤ it.norms.getLastD norm

lemma Recorded.accepted {norm : α} {it : Iteration α} {s : Solver α}
    (recorded : Recorded F norm it s) : Accepted F norm it s :=
  ⟨recorded.descends, .inl recorded.state⟩

lemma Started.recorded {s u : Solver α} {x : Tensor α} {norm : α} {it : Iteration α}
    (started : Started F s x norm it u) : Recorded F norm it u where
  descends := by
    rw [started.log, started.norms]
    exact .singleton started.value
  state := by rw [started.log, List.getLast?_singleton]
  hasNorm := by
    rw [started.norms]
    exact started.value

variable [LawfulComparison α]

lemma Recorded.step {s t : Solver α} {norm : α} {it it' : Iteration α} {again : Bool}
    (recorded : Recorded F norm it s) (passed : Passed F s it (it', again) t) :
    Accepted F norm it' t ∧ (again = true → Recorded F norm it' t) := by
  -- Only a pass that records a step adds a norm. After an exit behind a step the state has moved
  -- on, and all that is known is that its norm is not larger.
  cases passed with
  | exitBefore answer exits =>
    refine ⟨⟨?_, .inl ?_⟩, nofun⟩
    · simpa using recorded.descends
    · simpa using recorded.state
  | rejected attempts none =>
    refine ⟨⟨?_, .inl ?_⟩, nofun⟩
    · simpa [attempts.log] using recorded.descends
    · simpa [attempts.log] using recorded.state
  | exitAfter attempts taken answer exits =>
    obtain ⟨hasNorm, le⟩ := attempts.descends taken recorded.hasNorm
    refine ⟨⟨?_, .inr ⟨_, hasNorm, le⟩⟩, nofun⟩
    simpa [attempts.log] using recorded.descends
  | @recorded _ _ _ _ _ y _ _ _ attempts taken answer not_exit rebuilt keeps advance max =>
    obtain ⟨hasNorm, le⟩ := attempts.descends taken recorded.hasNorm
    obtain ⟨state, -, norms, -⟩ := advanced_of_eq_ok advance
    have log : recordedStates t.log = recordedStates s.log ++ [y] := by
      rw [keeps.log]
      simp [attempts.log, recorded?]
    have next : Recorded F norm it' t := by
      refine ⟨?_, ?_, ?_⟩
      · rw [log, norms]
        exact recorded.descends.concat hasNorm le
      · rw [log, state, List.getLast?_concat]
      · simpa [state, norms] using hasNorm
    exact ⟨next.accepted, fun _ => next⟩

/-- The norms descend along a run, and have done so wherever it fails. -/
def descent (F : NonlinearSystem α) (s : Solver α) (x : Tensor α) : Invariant F s x where
  during := Recorded F
  after := Accepted F
  failed t := ∃ norms, Descends F (recordedStates t.log) norms
  failed_early log := ⟨[], log ▸ .nil⟩
  failed_at_start _ _ value log := ⟨_, log.symm ▸ Descends.singleton ⟨_, value, rfl⟩⟩
  start started _ _ := started.recorded
  stop_at_start started _ _ := started.recorded.accepted
  next _ recorded passed := (recorded.step passed).2 rfl
  last _ recorded passed := (recorded.step passed).1
  failed_pass := by
    rintro norm it t t' - recorded (log | ⟨pre, out, u, y, attempts, taken, log⟩)
    · exact ⟨_, log ▸ recorded.descends⟩
    · obtain ⟨hasNorm, le⟩ := attempts.descends taken recorded.hasNorm
      exact ⟨_, log ▸ recorded.descends.concat hasNorm le⟩
  failed_limit recorded := ⟨_, recorded.descends⟩
  failed_hook accepted := ⟨_, accepted.descends⟩

section Undefined

variable {states : List (Tensor α)} {norms : List α} (descends : Descends F states norms)
include descends

lemma Descends.pairwise : norms.Pairwise fun before after => after ≤ before := by
  have : IsTrans α fun before after => after ≤ before :=
    ⟨fun _ _ _ first second => LawfulComparison.le_trans second first⟩
  exact List.isChain_iff_pairwise.mp descends.isChain

lemma Descends.isNaN_tail : ∀ c ∈ norms.tail, Scalar.isNaN c = false := by
  cases norms with
  | nil => simp
  | cons first norms =>
    intro c mem
    exact LawfulComparison.isNaN_left ((List.pairwise_cons.mp descends.pairwise).1 c mem)

lemma Descends.isNaN_dropLast : ∀ c ∈ norms.dropLast, Scalar.isNaN c = false := by
  rcases List.eq_nil_or_concat' norms with rfl | ⟨init, last, rfl⟩
  · simp
  · intro c mem
    rw [List.dropLast_concat] at mem
    have le := (List.pairwise_append.mp descends.pairwise).2.2 c mem last List.mem_cons_self
    exact LawfulComparison.isNaN_right le

end Undefined

/-- From a state with an undefined norm no step is taken. -/
lemma Accepted.eq_of_isNaN {s : Solver α} {norm : α} {it : Iteration α}
    (accepted : Accepted F norm it s) (undefined : Scalar.isNaN norm = true) :
    recordedStates s.log = [it.state] := by
  -- A comparison with an undefined norm is false, so no step can have been accepted.
  have not_le (c : α) : ¬ c ≤ norm := fun le => by
    simp [LawfulComparison.isNaN_right le] at undefined
  have nothing : it.norms = [] := by
    cases norms : it.norms with
    | nil => rfl
    | cons c rest =>
      have pairwise := accepted.descends.pairwise
      rw [norms] at pairwise
      exact absurd ((List.pairwise_cons.mp pairwise).1 c List.mem_cons_self) (not_le c)
  obtain ⟨⟨hasNorm, -⟩, state⟩ := accepted
  rw [nothing] at hasNorm state
  obtain ⟨y, rest, -, none, log⟩ := List.forall₂_cons_right_iff.mp hasNorm
  rw [List.forall₂_nil_right_iff.mp none] at log
  rw [log] at state ⊢
  rcases state with state | ⟨c, -, le⟩
  · simpa using state
  · exact absurd le (not_le c)

/-- In every run, whether it ends with a solution or fails, the recorded norms are those of the
residual at the recorded states, and none is larger than one before. Neither the norm of a state
that a step led to nor that of one from which a step was recorded is undefined. With a solution the
norms are the initial norm and those of the solution, whose state is the last recorded one or has a
norm that is not larger either; and if the initial norm is undefined, no step was taken. -/
theorem solve_descends {s : Solver α} (bound : s.system = some F) (x : Tensor α) :
    ∃ norms, List.Forall₂ (HasNorm F) (recordedStates ((solve x).run s).2.log) norms ∧
      norms.Pairwise (fun before after => after ≤ before) ∧
      (∀ c ∈ norms.tail, Scalar.isNaN c = false) ∧
      (∀ c ∈ norms.dropLast, Scalar.isNaN c = false) ∧
      ∀ sol, ((solve x).run s).1 = .ok sol →
        sol.log = ((solve x).run s).2.log ∧ norms = sol.initialNorm :: sol.norms ∧
        ((recordedStates sol.log).getLast? = some sol.state ∨
          ∃ c, HasNorm F sol.state c ∧ c ≤ sol.norms.getLastD sol.initialNorm) ∧
        (Scalar.isNaN sol.initialNorm = true → recordedStates sol.log = [sol.state]) := by
  have leads := (descent F s x).solve bound
  unfold Leads at leads
  rcases run : (solve x).run s with ⟨e | sol, t⟩
  · rw [run] at leads
    obtain ⟨norms, descends⟩ := leads
    exact ⟨norms, descends.hasNorm, descends.pairwise, descends.isNaN_tail,
      descends.isNaN_dropLast, nofun⟩
  · rw [run] at leads
    obtain ⟨norm, it, v, answer, accepted, called, rfl, rfl⟩ := leads
    refine ⟨norm :: it.norms, ?_, accepted.descends.pairwise, accepted.descends.isNaN_tail,
      accepted.descends.isNaN_dropLast, ?_⟩
    · simpa using accepted.descends.hasNorm
    · rintro _ ⟨⟩
      refine ⟨rfl, rfl, ?_⟩
      rw [recordedStates_afterHook]
      exact ⟨accepted.state, accepted.eq_of_isNaN⟩

/-- One step towards the root of `√a = 1` in binary64 numbers. -/
def squareRoot : Solver Float where
  settings :=
    { maxIterations := .ok (.count 1)
      tolerance := .ok 0
      stepTolerance := none
      difference := .number (.ok 0.0009765625)
      restarts := .ok 1
      krylovSteps := none
      krylovTolerance := .ofNumber 0
      threshold := .ok 0.5
      searchSteps := .ok (.count 10)
      searchTolerance := .ofNumber 0
      hooks := fun _ => none }
  system := some ⟨fun x => .ok (x.map fun a => a.sqrt - 1), .none⟩
  preconditioner := .identity

/-- From nine the full step leads to a negative number, where the norm is undefined. It goes through
a line search. -/
theorem solve_descends_squareRoot : ∃ sol,
    ((solve ⟨[1], [9]⟩).run squareRoot).1 = .ok sol ∧ sol.norms.length = 1 ∧
      ∀ c ∈ sol.norms, c ≤ sol.initialNorm ∧ c.isNaN = false := by
  have steps : (match ((solve ⟨[1], [9]⟩).run squareRoot).1 with
      | .ok sol => sol.norms.length
      | .error _ => 0) = 1 := by
    decide +kernel
  obtain ⟨norms, -, pairwise, defined, -, solved⟩ := solve_descends (s := squareRoot) rfl ⟨[1], [9]⟩
  cases run : ((solve ⟨[1], [9]⟩).run squareRoot).1 with
  | error e => simp [run] at steps
  | ok sol =>
    obtain ⟨-, rfl, -⟩ := solved sol run
    rw [run] at steps
    exact ⟨sol, rfl, steps, fun c mem => ⟨(List.pairwise_cons.mp pairwise).1 c mem, defined c mem⟩⟩

end Solver

end NewtonKrylov
