import Mathlib.Tactic.Lemma
import Mathlib.Tactic.SplitIfs
import NewtonKrylov.LinearSystem
import NewtonKrylov.Proofs.Effects

/-!
# The run of the restarted method

Nothing here depends on the arithmetic. `trace` lists the states after each cycle. `cycles_of_run`
and `trace_of_run` unfold one cycle of both, and `solve_eq_ok` puts the method together from the
residual at the start, its cycles, and the sum of their updates.
-/

namespace NewtonKrylov

namespace LinearSystem

variable {α : Type} [Scalar α]

/-- The state after a cycle. -/
def State.advance (s : State α) (ws : Workspace α) (out : Cycle.Outcome α) : State α :=
  ⟨ws, Vec.add s.update out.update, out.residual, out.norm, s.history ++ out.history⟩

/-- The states after each of the cycles. -/
def trace (op : Operator α) (threshold tolerance : α) (remaining limit : Nat) (s : State α) :
    List (State α) :=
  match (Cycle.run op s.residual s.norm (.ok threshold) (.ok tolerance) limit).run s.workspace with
  | (.error _, _) => []
  | (.ok out, ws) =>
    if _ : tolerance < out.norm ∧ out.steps < remaining ∧ 0 < out.steps then
      let left := remaining - out.steps
      s.advance ws out :: trace op threshold tolerance left (min limit left) (s.advance ws out)
    else [s.advance ws out]
termination_by remaining
decreasing_by omega

section Cycles

variable {op : Operator α} {threshold tolerance : α} {remaining limit : Nat} {s : State α}
  {out : Cycle.Outcome α} {ws : Workspace α}

lemma cycles_of_run
    (run : (Cycle.run op s.residual s.norm (.ok threshold) (.ok tolerance) limit).run s.workspace
      = (.ok out, ws)) :
    cycles op threshold tolerance remaining limit s
      = if tolerance < out.norm ∧ out.steps < remaining ∧ 0 < out.steps then
          cycles op threshold tolerance (remaining - out.steps) (min limit (remaining - out.steps))
            (s.advance ws out)
        else .ok (s.advance ws out) := by
  rw [cycles, run]
  simp only [dite_eq_ite]
  rfl

lemma trace_of_run
    (run : (Cycle.run op s.residual s.norm (.ok threshold) (.ok tolerance) limit).run s.workspace
      = (.ok out, ws)) :
    trace op threshold tolerance remaining limit s
      = if tolerance < out.norm ∧ out.steps < remaining ∧ 0 < out.steps then
          s.advance ws out :: trace op threshold tolerance (remaining - out.steps)
            (min limit (remaining - out.steps)) (s.advance ws out)
        else [s.advance ws out] := by
  rw [trace, run]
  simp only [dite_eq_ite]

variable {e : Error}

lemma cycles_of_failed
    (failed : (Cycle.run op s.residual s.norm (.ok threshold) (.ok tolerance) limit).run s.workspace
      = (.error e, ws)) : cycles op threshold tolerance remaining limit s = .error e := by
  rw [cycles, failed]

lemma trace_of_failed
    (failed : (Cycle.run op s.residual s.norm (.ok threshold) (.ok tolerance) limit).run s.workspace
      = (.error e, ws)) : trace op threshold tolerance remaining limit s = [] := by
  rw [trace, failed]

end Cycles

/-! ### The method -/

/-- The number of steps that all cycles may take together. -/
def stepsAllowed (n : Nat) (o : LinearOptions α) : Int := o.maxSteps.getD n

/-- The number of steps that a cycle may take. -/
def cycleLimit (n : Nat) (o : LinearOptions α) : Nat :=
  (min (o.restart.getD (stepsAllowed n o)) (min (stepsAllowed n o) n)).toNat

/-- The operator of the cycles, where `f` applies the operator of the system. -/
def preconditioned (o : LinearOptions α) (f : Operator α) : Operator α :=
  fun z => do o.left (← f (← o.right z))

/-- The state in front of the first cycle, from the residual `r`. -/
def start (n : Nat) (o : LinearOptions α) (r : Vec α) : State α :=
  ⟨.empty n (cycleLimit n o), Vec.zeros n, Tensor.ofVec r, Vec.norm r, [Vec.norm r]⟩

/-- The cycles of the method, from the residual `r`. -/
def runCycles (n : Nat) (o : LinearOptions α) (f : Operator α) (r : Vec α) :
    Except Error (State α) :=
  if o.tolerance * Vec.norm r < Vec.norm r ∧ 0 < stepsAllowed n o then
    cycles (preconditioned o f) o.threshold (o.tolerance * Vec.norm r)
      (stepsAllowed n o).toNat (cycleLimit n o) (start n o r)
  else .ok (start n o r)

/-- The states after each cycle of the method. -/
def visited (n : Nat) (o : LinearOptions α) (f : Operator α) (r : Vec α) : List (State α) :=
  if o.tolerance * Vec.norm r < Vec.norm r ∧ 0 < stepsAllowed n o then
    trace (preconditioned o f) o.threshold (o.tolerance * Vec.norm r)
      (stepsAllowed n o).toNat (cycleLimit n o) (start n o r)
  else []

/-- Are the limits of the steps ones that the method accepts? -/
structure LimitsOk (n : Nat) (o : LinearOptions α) : Prop where
  restart : ∀ m, o.restart = some m → 1 ≤ m
  steps : 0 ≤ stepsAllowed n o

omit [Scalar α] in
/-- Whether the limits are accepted does not depend on the other options. -/
lemma limitsOk_congr {n : Nat} {o o' : LinearOptions α} (restart : o'.restart = o.restart)
    (steps : o'.maxSteps = o.maxSteps) : LimitsOk n o' ↔ LimitsOk n o := by
  have allowed : stepsAllowed n o' = stepsAllowed n o := congrArg (·.getD (n : Int)) steps
  constructor
  · intro limits
    exact ⟨restart ▸ limits.restart, allowed ▸ limits.steps⟩
  · intro limits
    exact ⟨restart ▸ limits.restart, allowed ▸ limits.steps⟩

/-- The method is done after one cycle if that reaches the tolerance. -/
lemma runCycles_of_run {n : Nat} {o : LinearOptions α} {f : Operator α} {r : Vec α}
    {out : Cycle.Outcome α} {ws : Workspace α}
    (work : o.tolerance * Vec.norm r < Vec.norm r ∧ 0 < stepsAllowed n o)
    (run : (Cycle.run (preconditioned o f) (Tensor.ofVec r) (Vec.norm r) (.ok o.threshold)
      (.ok (o.tolerance * Vec.norm r)) (cycleLimit n o)).run (.empty n (cycleLimit n o))
        = (.ok out, ws))
    (done : ¬ o.tolerance * Vec.norm r < out.norm) :
    runCycles n o f r = .ok ((start n o r).advance ws out) := by
  unfold runCycles
  rw [if_pos work, cycles_of_run run, if_neg fun goes_on => done goes_on.1]

/-- The limits of the steps leave room for as many steps as there are dimensions. -/
structure LimitsFull (n : Nat) (o : LinearOptions α) : Prop where
  restart : ∀ m, o.restart = some m → n ≤ m
  steps : ∀ m, o.maxSteps = some m → n ≤ m

omit [Scalar α] in
lemma LimitsFull.le_stepsAllowed {n : Nat} {o : LinearOptions α} (full : LimitsFull n o) :
    n ≤ stepsAllowed n o := by
  unfold stepsAllowed
  cases given : o.maxSteps with
  | none => exact Int.le_refl _
  | some m => exact full.steps m given

omit [Scalar α] in
lemma LimitsFull.limitsOk {n : Nat} {o : LinearOptions α} (full : LimitsFull n o)
    (dimension : 0 < n) : LimitsOk n o where
  restart := by
    intro m given
    have room := full.restart m given
    omega
  steps := by
    have room := full.le_stepsAllowed
    omega

omit [Scalar α] in
lemma LimitsFull.cycleLimit_eq {n : Nat} {o : LinearOptions α} (full : LimitsFull n o) :
    cycleLimit n o = n := by
  have room := full.le_stepsAllowed
  have restart : n ≤ o.restart.getD (stepsAllowed n o) := by
    cases given : o.restart with
    | none => exact room
    | some m => exact full.restart m given
  unfold cycleLimit
  omega

omit [Scalar α] in
lemma cycleLimit_le (n : Nat) (o : LinearOptions α) : cycleLimit n o ≤ n := by
  unfold cycleLimit
  omega

omit [Scalar α] in
lemma LimitsOk.cycleLimit_pos {n : Nat} {o : LinearOptions α} (limits : LimitsOk n o)
    (dimension : 0 < n) (some_step : 0 < stepsAllowed n o) : 0 < cycleLimit n o := by
  have restart : 0 < o.restart.getD (stepsAllowed n o) := by
    cases given : o.restart with
    | none => exact some_step
    | some m => exact limits.restart m given
  unfold cycleLimit
  omega

/-- The reason for which limits of the steps are not accepted. -/
def limitsError (n : Nat) (o : LinearOptions α) : Error :=
  match o.restart with
  | some m => if m < 1 then .restartTooSmall m else .negativeStepLimit (stepsAllowed n o)
  | none => .negativeStepLimit (stepsAllowed n o)

lemma initialGuess_eq_ok {n : Nat} {o : LinearOptions α} {b x : Vec α} (hb : b.length = n)
    (guess : o.guess.getD (Tensor.zeros [n]) = Tensor.ofVec x) (hx : x.length = n) :
    initialGuess n (Tensor.ofVec b).shape o.guess = .ok (Tensor.ofVec x) := by
  unfold initialGuess
  simp only [guess]
  rw [if_pos (by simp [Tensor.ofVec, hx, hb])]

/-- Limits of the steps that are not accepted are reported, whatever the operator does. -/
theorem solve_eq_error {n : Nat} {A : LinearOperator α} {o : LinearOptions α} {f : Operator α}
    {b x : Vec α} (hb : b.length = n) (limits : ¬ LimitsOk n o)
    (guess : o.guess.getD (Tensor.zeros [n]) = Tensor.ofVec x) (hx : x.length = n)
    (resolved : resolve n A = .ok f) : solve A (Tensor.ofVec b) o = .error (limitsError n o) := by
  have accepted := initialGuess_eq_ok hb guess hx
  subst hb
  have negative (restart : ∀ m, o.restart = some m → 1 ≤ m) : o.maxSteps.getD b.length < 0 :=
    Int.not_le.mp fun steps => limits ⟨restart, steps⟩
  unfold solve limitsError
  simp only [Tensor.length_ofVec, ok_bind, accepted, resolved]
  cases given : o.restart with
  | none =>
    have below := negative (by simp [given])
    simp only [pure_bind, if_pos below]
    rfl
  | some m =>
    by_cases small : m < 1
    · simp only [if_pos small]
      rfl
    · have below := negative (by simpa [given] using small)
      simp only [if_neg small, pure_bind, if_pos below]
      rfl

/-- The method on vectors of the right length, in terms of its parts. -/
theorem solve_eq_ok {n : Nat} {A : LinearOperator α} {o : LinearOptions α} {f : Operator α}
    {b x image r v : Vec α} {last : State α} (hb : b.length = n) (limits : LimitsOk n o)
    (guess : o.guess.getD (Tensor.zeros [n]) = Tensor.ofVec x) (hx : x.length = n)
    (resolved : resolve n A = .ok f)
    (applied : f (Tensor.ofVec x) = .ok (Tensor.ofVec image)) (himage : image.length = n)
    (left : o.left (Tensor.ofVec (Vec.sub b image)) = .ok (Tensor.ofVec r))
    (ran : runCycles n o f r = .ok last)
    (right : o.right (Tensor.ofVec last.update) = .ok (Tensor.ofVec v)) (hv : v.length = n) :
    solve A (Tensor.ofVec b) o = .ok ⟨Tensor.ofVec (Vec.add x v), last.history⟩ := by
  have accepted := initialGuess_eq_ok hb guess hx
  subst hb
  have residual : Tensor.combine (· - ·) (Tensor.ofVec b) (Tensor.ofVec image)
      = .ok (Tensor.ofVec (Vec.sub b image)) := Tensor.combine_ofVec _ himage.symm
  have sum : Tensor.combine (· + ·) (Tensor.ofVec x) (Tensor.ofVec v)
      = .ok (Tensor.ofVec (Vec.add x v)) := Tensor.combine_ofVec _ (hx.trans hv.symm)
  have steps : ¬ o.maxSteps.getD b.length < 0 := Int.not_lt.mpr limits.steps
  -- The two branches of the method end in the same way.
  have finish (working : Prop) [Decidable working] (e : Except Error (State α)) (s : State α)
      (ran : (if working then e else .ok s) = .ok last) :
      (if working then e >>= fun s => do
          let y ← Tensor.combine (· + ·) (Tensor.ofVec x) (← o.right (Tensor.ofVec s.update))
          return LinearSolution.mk y s.history
        else do
          let y ← Tensor.combine (· + ·) (Tensor.ofVec x) (← o.right (Tensor.ofVec s.update))
          return LinearSolution.mk y s.history)
        = .ok ⟨Tensor.ofVec (Vec.add x v), last.history⟩ := by
    split_ifs at ran ⊢
    · rw [ran]
      simp only [ok_bind, right, sum]
      rfl
    · rw [Except.ok.inj ran]
      simp only [ok_bind, right, sum]
      rfl
  unfold solve
  simp only [Tensor.length_ofVec, ok_bind, accepted, resolved, applied, residual, left,
    Tensor.norm_ofVec]
  unfold runCycles start cycleLimit at ran
  cases given : o.restart with
  | none =>
    rw [given] at ran
    simp only [pure_bind]
    rw [if_neg steps]
    exact (finish _ _ _ ran :)
  | some m =>
    have accepted : ¬ m < 1 := Int.not_lt.mpr (limits.restart m given)
    rw [given] at ran
    simp only [if_neg accepted, pure_bind]
    rw [if_neg steps]
    exact (finish _ _ _ ran :)

end LinearSystem

end NewtonKrylov
