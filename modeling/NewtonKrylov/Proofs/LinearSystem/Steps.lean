import NewtonKrylov.Proofs.Krylov.Steps
import NewtonKrylov.Proofs.LinearSystem.Run
import NewtonKrylov.Proofs.Roots

/-!
# The steps of the restarted method

Nothing here depends on the arithmetic but the reason for which the method stops. If the operator
and the preconditioners take vectors of the dimension to such vectors, the method goes through,
whatever numbers it meets on the way. Beside the norm at the start the history has one for each step
of each cycle, and all cycles together take no more steps than they may. If they take fewer, the
residual norm is no longer above the tolerance.

That needs `LawfulRoots`: where a cycle takes no step because the residual norm is zero, this norm
must not be above the tolerance.
-/

namespace NewtonKrylov

namespace LinearSystem

open Vec NewtonKrylov.Cycle

variable {α : Type} [Scalar α] {n capacity : ℕ}

/-- The number of steps of some cycles. -/
def totalSteps (cs : List (State α)) : ℕ := (cs.map fun c => c.workspace.factorization.size).sum

omit [Scalar α] in
@[simp] lemma totalSteps_cons (c : State α) (cs : List (State α)) :
    totalSteps (c :: cs) = c.workspace.factorization.size + totalSteps cs := by
  simp [totalSteps]

/-- What the next cycle needs of a state, for a work space of a given capacity. -/
structure Shaped (n capacity : ℕ) (s : State α) : Prop where
  workspace : s.workspace.reset = .empty n capacity
  update : s.update.length = n
  residual : ∃ r : Vec α, s.residual = Tensor.ofVec r ∧ r.length = n

lemma shaped_start (o : LinearOptions α) {r : Vec α} (length : r.length = n) :
    Shaped n (cycleLimit n o) (start n o r) where
  workspace := rfl
  update := length_zeros n
  residual := ⟨r, rfl, length⟩

lemma Shaped.advance {op : Operator α} {s : State α} {ws : Workspace α} {out : Outcome α}
    (shaped : Shaped n capacity s) (counted : Counted n capacity op ws out) :
    Shaped n capacity (s.advance ws out) where
  workspace := counted.reset
  update := by rw [State.advance, length_add, shaped.update, counted.update, min_self]
  residual := counted.residual

/-- The steps that a cycle has taken, of which there are at most `limit`: a direction and an
application of the operator for each of them, and room for all of their columns. -/
structure Stepped (op : Operator α) (capacity limit : ℕ) (c : State α) : Prop where
  directions : c.workspace.directions.length = c.workspace.factorization.size
  applied : Applied op c.workspace
  atMost : c.workspace.factorization.size ≤ limit
  room : c.workspace.factorization.size ≤ c.workspace.factorization.capacity
  capacity : c.workspace.factorization.capacity = capacity

lemma stepped_advance {op : Operator α} {s : State α} {ws : Workspace α} {out : Outcome α}
    {limit : ℕ} (counted : Counted n capacity op ws out)
    (atMost : out.steps ≤ (min (limit : ℤ) capacity).toNat) :
    Stepped op capacity limit (s.advance ws out) where
  directions := counted.fits.length_directions
  applied := counted.applied
  atMost := by
    change ws.factorization.size ≤ limit
    rw [← counted.steps]
    omega
  room := by
    change ws.factorization.size ≤ ws.factorization.capacity
    rw [← counted.steps, counted.fits.capacity, counted.capacity]
    omega
  capacity := counted.fits.capacity.trans counted.capacity

/-! ### All cycles -/

/-- What the cycles from the state `s` have come to in the state `last`. -/
structure Accounted (op : Operator α) (capacity remaining limit : ℕ) (s last : State α)
    (cs : List (State α)) : Prop where
  ends : cs.getLast? = some last
  history : last.history.length = s.history.length + totalSteps cs
  starts : s.history <+: last.history
  steps : totalSteps cs ≤ remaining
  count : 0 < remaining → cs.length ≤ remaining
  stepped : ∀ c ∈ cs, Stepped op capacity limit c

section Accounted

variable {op : Operator α} {remaining limit : ℕ} {s last : State α} {cs : List (State α)}
  {ws : Workspace α} {out : Outcome α}

/-- One cycle. -/
lemma accounted_singleton (counted : Counted n capacity op ws out)
    (within : out.steps ≤ remaining) (atMost : out.steps ≤ (min (limit : ℤ) capacity).toNat) :
    Accounted op capacity remaining limit s (s.advance ws out) [s.advance ws out] := by
  have total : totalSteps [s.advance ws out] = out.steps := counted.steps.symm
  constructor
  · rfl
  · rw [total, ← counted.history]
    exact List.length_append
  · exact List.prefix_append s.history out.history
  · rwa [total]
  · exact id
  · intro c member
    rw [List.mem_singleton.mp member]
    exact stepped_advance counted atMost

/-- One cycle before others, for which what is left of the steps is enough. -/
lemma Accounted.cons (counted : Counted n capacity op ws out)
    (atMost : out.steps ≤ (min (limit : ℤ) capacity).toNat) (some_step : 0 < out.steps)
    (fewer : out.steps < remaining)
    (rest : Accounted op capacity (remaining - out.steps) (min limit (remaining - out.steps))
      (s.advance ws out) last cs) :
    Accounted op capacity remaining limit s last (s.advance ws out :: cs) := by
  have total : totalSteps (s.advance ws out :: cs) = out.steps + totalSteps cs := by
    rw [totalSteps_cons, counted.steps]
    rfl
  have longer : (s.advance ws out).history.length = s.history.length + out.steps := by
    rw [← counted.history]
    exact List.length_append
  have steps := rest.steps
  have count := rest.count (by omega)
  constructor
  · rw [List.getLast?_cons, rest.ends]
    rfl
  · rw [rest.history, total, longer, add_assoc]
  · exact (List.prefix_append s.history out.history).trans rest.starts
  · omega
  · intro _
    rw [List.length_cons]
    omega
  · intro c member
    rcases List.mem_cons.mp member with rfl | later
    · exact stepped_advance counted atMost
    · have less := rest.stepped c later
      exact { less with atMost := less.atMost.trans (min_le_left _ _) }

end Accounted

/-- The cycles go through and add up. If a number above the tolerance is never zero, they end with
the last norm in the history, and above the tolerance only if no steps are left. -/
theorem cycles_accounted {op : Operator α} (keeps : KeepsLength n op) (fits : capacity ≤ n)
    (ν tolerance : α) (remaining : ℕ) {limit : ℕ} (within : limit ≤ remaining) {s : State α}
    (shaped : Shaped n capacity s) :
    ∃ last, cycles op ν tolerance remaining limit s = .ok last ∧ Shaped n capacity last ∧
      Accounted op capacity remaining limit s last (trace op ν tolerance remaining limit s) ∧
      ((∀ c, tolerance < c → (c == 0) = false) → tolerance < s.norm → 0 < limit → 0 < capacity →
        last.history.getLast? = some last.norm ∧
        (totalSteps (trace op ν tolerance remaining limit s) < remaining →
          ¬ tolerance < last.norm)) := by
  -- By strong induction on the steps that are left. A cycle takes an unknown number of them, but
  -- another one follows only if it has taken some.
  induction remaining using Nat.strong_induction_on generalizing limit s with
  | _ remaining ih =>
    obtain ⟨r, residual, length⟩ := shaped.residual
    obtain ⟨out, ws, run, counted, atMost, positive⟩ :=
      run_counted keeps fits shaped.workspace length s.norm ν tolerance limit
    rw [← residual] at run
    rw [cycles_of_run run, trace_of_run run]
    by_cases goes_on : tolerance < out.norm ∧ out.steps < remaining ∧ 0 < out.steps
    · rw [if_pos goes_on, if_pos goes_on]
      obtain ⟨above, fewer, some_step⟩ := goes_on
      obtain ⟨last, ran, kept, rest, exit⟩ := ih (remaining - out.steps) (by omega)
        (min_le_right limit (remaining - out.steps)) (shaped.advance counted)
      refine ⟨last, ran, kept, rest.cons counted atMost some_step fewer, ?_⟩
      intro lawful _ _ room
      obtain ⟨ends, stops⟩ := exit lawful above (by omega) room
      refine ⟨ends, fun fewer_steps => stops ?_⟩
      rw [totalSteps_cons] at fewer_steps
      change ws.factorization.size + _ < _ at fewer_steps
      have steps := counted.steps
      omega
    · rw [if_neg goes_on, if_neg goes_on]
      refine ⟨s.advance ws out, rfl, shaped.advance counted,
        accounted_singleton counted (by omega) atMost, ?_⟩
      intro lawful large some_limit room
      -- A number above the tolerance is not zero, so the cycle began. Its last norm ends the
      -- history.
      have some_step := positive (lawful s.norm large) (by omega)
      constructor
      · change (s.history ++ out.history).getLast? = some out.norm
        rw [List.getLast?_append, counted.last some_step]
        rfl
      · refine fun fewer above => goes_on ⟨above, ?_, some_step⟩
        rw [counted.steps]
        exact fewer

/-! ### The method -/

/-- A system whose operator and preconditioners take vectors of length `n` to such vectors. The
function `f` is what the system resolves to. -/
structure Sized (n : ℕ) (A : LinearOperator α) (o : LinearOptions α) (f : Operator α) : Prop where
  resolved : resolve n A = .ok f
  operator : KeepsLength n f
  left : KeepsLength n o.left
  right : KeepsLength n o.right

variable {A : LinearOperator α} {o : LinearOptions α} {f : Operator α}

lemma Sized.keeps_preconditioned (sized : Sized n A o f) : KeepsLength n (preconditioned o f) :=
  (sized.left.comp sized.operator).comp sized.right

omit [Scalar α] in
lemma cycleLimit_le_stepsAllowed (n : ℕ) (o : LinearOptions α) :
    cycleLimit n o ≤ (stepsAllowed n o).toNat := by
  unfold cycleLimit
  omega

/-- A number above a tolerance that is a multiple of a norm is not zero. -/
lemma ne_zero_of_tolerance_lt [LawfulRoots α] {t c : α} {v : Vec α} (nonneg : 0 ≤ t)
    (large : t * Vec.norm v < c) : (c == 0) = false := by
  rw [← Bool.not_eq_true]
  exact fun zero => LawfulRoots.not_mul_sqrt_lt nonneg zero large

/-- A residual above the tolerance has an entry. -/
lemma length_pos_of_tolerance_lt [LawfulRoots α] {t : α} {r : Vec α} (nonneg : 0 ≤ t)
    (large : t * Vec.norm r < Vec.norm r) : 0 < r.length := by
  rw [List.length_pos_iff]
  rintro rfl
  exact LawfulRoots.not_mul_sqrt_lt nonneg LawfulRoots.sqrt_zero large

/-- What the cycles of the method come to, from the residual `r`. -/
theorem Sized.runCycles_accounted (sized : Sized n A o f) (limits : LimitsOk n o)
    (nonneg : 0 ≤ o.tolerance) {r : Vec α} (length : r.length = n) :
    ∃ last, runCycles n o f r = .ok last ∧ last.update.length = n ∧
      (∀ c ∈ (visited n o f r).getLast?, c = last) ∧
      [Vec.norm r] <+: last.history ∧ last.history.length = totalSteps (visited n o f r) + 1 ∧
      (totalSteps (visited n o f r) : ℤ) ≤ stepsAllowed n o ∧
      ((visited n o f r).length : ℤ) ≤ stepsAllowed n o ∧
      (∀ c ∈ visited n o f r,
        Stepped (preconditioned o f) (cycleLimit n o) (cycleLimit n o) c) ∧
      (LawfulRoots α → (totalSteps (visited n o f r) : ℤ) < stepsAllowed n o →
        ∀ final ∈ last.history.getLast?, ¬ o.tolerance * Vec.norm r < final) := by
  have steps := limits.steps
  unfold runCycles visited
  by_cases work : o.tolerance * Vec.norm r < Vec.norm r ∧ 0 < stepsAllowed n o
  · rw [if_pos work, if_pos work]
    obtain ⟨last, ran, kept, accounted, exit⟩ :=
      cycles_accounted sized.keeps_preconditioned (cycleLimit_le n o) o.threshold
        (o.tolerance * Vec.norm r) (stepsAllowed n o).toNat (cycleLimit_le_stepsAllowed n o)
        (shaped_start o length)
    have atMost := accounted.steps
    have count := accounted.count (by omega)
    refine ⟨last, ran, kept.update, ?_, accounted.starts, ?_, by omega, by omega,
      accounted.stepped, ?_⟩
    · intro c member
      rw [accounted.ends] at member
      exact (Option.mem_some.mp member).symm
    · rw [accounted.history, add_comm]
      rfl
    · intro lawful fewer final member
      have dimension : 0 < n := length ▸ length_pos_of_tolerance_lt nonneg work.1
      have room := limits.cycleLimit_pos dimension work.2
      obtain ⟨ends, stops⟩ := exit (fun c => ne_zero_of_tolerance_lt nonneg) work.1 room room
      obtain rfl : last.norm = final := Option.mem_some.mp (ends ▸ member)
      exact stops (by omega)
  · rw [if_neg work, if_neg work]
    refine ⟨start n o r, rfl, length_zeros n, by simp, List.prefix_rfl, rfl, steps, steps, by simp,
      ?_⟩
    intro _ some_step final member
    obtain rfl : Vec.norm r = final := Option.mem_some.mp member
    exact fun large => work ⟨large, some_step⟩

/-- The method goes through, whatever the arithmetic and whatever numbers the operator and the
preconditioners return. Beside the norm at the start the history has one for each step of each
cycle, all cycles together stay within the number of steps allowed and each of them within the limit
of a cycle, and if there are steps left the last norm is not above the tolerance. -/
theorem Sized.solve_accounts (sized : Sized n A o f) (limits : LimitsOk n o)
    (nonneg : 0 ≤ o.tolerance) {b x₀ : Vec α} (hb : b.length = n)
    (guess : o.guess.getD (Tensor.zeros [n]) = Tensor.ofVec x₀) (hx : x₀.length = n) :
    ∃ image r x history,
      f (Tensor.ofVec x₀) = .ok (Tensor.ofVec image) ∧
      o.left (Tensor.ofVec (Vec.sub b image)) = .ok (Tensor.ofVec r) ∧
      solve A (Tensor.ofVec b) o = .ok ⟨Tensor.ofVec x, history⟩ ∧ x.length = n ∧
      history.head? = some (Vec.norm r) ∧
      (∀ c ∈ (visited n o f r).getLast?, c.history = history) ∧
      history.length = totalSteps (visited n o f r) + 1 ∧
      (totalSteps (visited n o f r) : ℤ) ≤ stepsAllowed n o ∧
      ((visited n o f r).length : ℤ) ≤ stepsAllowed n o ∧
      (∀ c ∈ visited n o f r,
        Stepped (preconditioned o f) (cycleLimit n o) (cycleLimit n o) c) ∧
      (LawfulRoots α → (history.length : ℤ) - 1 < stepsAllowed n o →
        ∀ first ∈ history.head?, ∀ final ∈ history.getLast?, ¬ o.tolerance * first < final) := by
  obtain ⟨image, applied, himage⟩ := sized.operator x₀ hx
  obtain ⟨r, left, hr⟩ := sized.left (Vec.sub b image) (by rw [length_sub, hb, himage, min_self])
  obtain ⟨last, ran, hu, final, ⟨later, starts⟩, count, atMost, cycles, stepped, exit⟩ :=
    sized.runCycles_accounted limits nonneg hr
  obtain ⟨v, right, hv⟩ := sized.right last.update hu
  have first : last.history.head? = some (Vec.norm r) := by
    rw [← starts]
    rfl
  refine ⟨image, r, Vec.add x₀ v, last.history, applied, left,
    solve_eq_ok hb limits guess hx sized.resolved applied himage left ran right hv,
    by rw [length_add, hx, hv, min_self], first, ?_, count, atMost, cycles, stepped, ?_⟩
  · intro c member
    rw [final c member]
  · intro lawful fewer norm member
    obtain rfl : Vec.norm r = norm := Option.mem_some.mp (first ▸ member)
    exact exit lawful (by omega)

/-- The product with a square matrix keeps the length, whatever the entries. -/
lemma keepsLength_product {A : Tensor α} (square : A.shape = [n, n]) : KeepsLength n A.product := by
  rintro z rfl
  refine ⟨_, Tensor.product_matrix A square, ?_⟩
  rw [Rows.length_apply, List.length_map, Tensor.slices, square]
  simp

/-- A matrix of binary64 entries, of which one is infinite and one undefined. -/
def undefinedMatrix : Tensor Float := ⟨[2, 2], [1 / 0, 0 / 0, 0, 1]⟩

/-- The method with one step for each cycle and at most three in all, where most results are
undefined. -/
theorem solve_accounts_undefinedMatrix :
    ∃ x history, solve (.matrix undefinedMatrix) (Tensor.ofVec [1, 1])
        { tolerance := 0, threshold := 1, restart := some 1, maxSteps := some 3 }
          = .ok ⟨Tensor.ofVec x, history⟩ ∧
      history.length ≤ 4 ∧
      (history.length < 4 →
        ∀ first ∈ history.head?, ∀ final ∈ history.getLast?, ¬ 0 * first < final) := by
  have sized : Sized 2 (.matrix undefinedMatrix)
      { tolerance := 0, threshold := 1, restart := some 1, maxSteps := some 3 }
      undefinedMatrix.product :=
    ⟨rfl, keepsLength_product rfl, .ok, .ok⟩
  have limits : LimitsOk 2
      { tolerance := (0 : Float), threshold := 1, restart := some 1, maxSteps := some 3 } :=
    ⟨by simp, by simp [stepsAllowed]⟩
  obtain ⟨image, r, x, history, -, -, solved, -, -, -, count, atMost, -, -, exit⟩ :=
    sized.solve_accounts limits (by decide) (b := [1, 1]) rfl (Tensor.zeros_vector 2) rfl
  change _ ≤ (3 : ℤ) at atMost
  refine ⟨x, history, solved, by omega, fun fewer => ?_⟩
  exact exit inferInstance (by change _ < (3 : ℤ); omega)

end LinearSystem

end NewtonKrylov
