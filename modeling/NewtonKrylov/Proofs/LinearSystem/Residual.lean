import NewtonKrylov.Proofs.Krylov.Decay
import NewtonKrylov.Proofs.LinearSystem.Run

/-!
# The residual of a solution

The history of the restarted method ends with the norm of the residual that the last cycle carries
along. What the residual of the solution has beside it is the sum of the gaps of all cycles. A
cycle has a gap if an equation of its triangular system has no pivot and does not hold.

So the last entry of the history is the residual norm of the solution as long as such equations
hold. When only the last cycle is in doubt, this is also necessary: for the matrix zero the method
ends with residual norm zero in the history, and has not moved.
-/

namespace NewtonKrylov

namespace LinearSystem

open Vec NewtonKrylov.Cycle
open scoped InnerProductSpace

variable {n : ℕ}

/-! ### Systems of points -/

/-- A system whose operator and preconditioners act as functions of points. The function `f` is what
the system resolves to. -/
structure Maps (n : ℕ) (A : LinearOperator ℝ) (o : LinearOptions ℝ) (f : Operator ℝ)
    (M L R : Space n → Space n) : Prop where
  resolved : resolve n A = .ok f
  operator : ActsAs f M
  left : ActsAs o.left L
  right : ActsAs o.right R

/-- A system whose operator and preconditioners act as linear maps. The function `f` is what the
system resolves to. -/
structure Linear (n : ℕ) (A : LinearOperator ℝ) (o : LinearOptions ℝ) (f : Operator ℝ)
    (M L R : Space n →ₗ[ℝ] Space n) : Prop where
  resolved : resolve n A = .ok f
  operator : ActsAs f M
  left : ActsAs o.left L
  right : ActsAs o.right R

/-- The guess of a system is this point, or there is none and the point is zero. -/
def GuessIs (n : ℕ) (o : LinearOptions ℝ) (x : Space n) : Prop :=
  o.guess = some (Tensor.ofVec (ofSpace x)) ∨ o.guess = none ∧ x = 0

lemma GuessIs.getD {o : LinearOptions ℝ} {x : Space n} (guess : GuessIs n o x) :
    o.guess.getD (Tensor.zeros [n]) = Tensor.ofVec (ofSpace x) := by
  rcases guess with given | ⟨none, rfl⟩
  · rw [given, Option.getD_some]
  · rw [none, Option.getD_none, Tensor.zeros_vector, ofSpace_zero]

section Maps

variable {A : LinearOperator ℝ} {o : LinearOptions ℝ} {f : Operator ℝ} {M L R : Space n → Space n}

lemma Maps.actsAs_preconditioned (maps : Maps n A o f M L R) :
    ActsAs (preconditioned o f) (L ∘ M ∘ R) :=
  (maps.left.comp maps.operator).comp maps.right

/-- The method on points, in terms of its cycles. -/
theorem Maps.solve_eq (maps : Maps n A o f M L R) (limits : LimitsOk n o) {b x : Space n}
    (guess : GuessIs n o x) {last : State ℝ}
    (ran : runCycles n o f (ofSpace (L (b - M x))) = .ok last) (length : last.update.length = n) :
    solve A (Tensor.ofVec (ofSpace b)) o
      = .ok ⟨Tensor.ofVec (ofSpace (x + R (toSpace n last.update))), last.history⟩ := by
  have start : o.left (Tensor.ofVec (sub (ofSpace b) (ofSpace (M x))))
      = .ok (Tensor.ofVec (ofSpace (L (b - M x)))) := by
    rw [← ofSpace_sub]
    exact maps.left _
  rw [ofSpace_add]
  exact solve_eq_ok (length_ofSpace b) limits guess.getD (length_ofSpace x) maps.resolved
    (maps.operator x) (length_ofSpace _) start ran (maps.right.apply length)
    (length_ofSpace _)

end Maps

section Linear

variable {A : LinearOperator ℝ} {o : LinearOptions ℝ} {f : Operator ℝ}
  {M L R : Space n →ₗ[ℝ] Space n}

lemma Linear.maps (linear : Linear n A o f M L R) : Maps n A o f M L R :=
  ⟨linear.resolved, linear.operator, linear.left, linear.right⟩

/-- A system knows nothing of the options but the preconditioners. -/
lemma Linear.congr {o' : LinearOptions ℝ} (linear : Linear n A o f M L R)
    (left : o'.left = o.left) (right : o'.right = o.right) : Linear n A o' f M L R :=
  ⟨linear.resolved, linear.operator, left ▸ linear.left, right ▸ linear.right⟩

lemma Linear.actsAs_preconditioned (linear : Linear n A o f M L R) :
    ActsAs (preconditioned o f) (L ∘ₗ M ∘ₗ R) :=
  linear.maps.actsAs_preconditioned

/-- The method on points, in terms of its cycles. -/
theorem Linear.solve_eq (linear : Linear n A o f M L R) (limits : LimitsOk n o) {b x : Space n}
    (guess : GuessIs n o x) {last : State ℝ}
    (ran : runCycles n o f (ofSpace (L (b - M x))) = .ok last) (length : last.update.length = n) :
    solve A (Tensor.ofVec (ofSpace b)) o
      = .ok ⟨Tensor.ofVec (ofSpace (x + R (toSpace n last.update))), last.history⟩ :=
  linear.maps.solve_eq limits guess ran length

lemma residual_of_update (b x u : Space n) :
    L (b - M (x + R u)) = L (b - M x) - (L ∘ₗ M ∘ₗ R) u := by
  simp only [LinearMap.comp_apply, map_sub, map_add]
  module

end Linear

/-! ### One cycle -/

/-- The sum of the updates so far, as a point. -/
noncomputable def State.point (n : ℕ) (s : State ℝ) : Space n := toSpace n s.update

/-- The residual that is carried along, as a point. -/
noncomputable def State.residualPoint (n : ℕ) (s : State ℝ) : Space n :=
  toSpace n s.residual.entries

/-- The parts of a state belong together, for a work space of a given capacity. -/
structure Consistent (n capacity : ℕ) (s : State ℝ) : Prop where
  workspace : s.workspace.reset = .empty n capacity
  update : s.update.length = n
  residual : s.residual = Tensor.ofVec (ofSpace (s.residualPoint n))
  norm : s.norm = ‖s.residualPoint n‖
  last : s.history.getLast? = some s.norm

lemma consistent_start (o : LinearOptions ℝ) (r : Space n) :
    Consistent n (cycleLimit n o) (start n o (ofSpace r)) where
  workspace := rfl
  update := length_zeros n
  residual := by simp [start, State.residualPoint, Tensor.ofVec]
  norm := by simp [start, State.residualPoint, Tensor.ofVec, norm_ofSpace]
  last := rfl

section Advance

variable {F : Space n → Space n} {s : State ℝ} {capacity limit : ℕ} {ws : Workspace ℝ}
  {p : Progress ℝ} {out : Outcome ℝ}

lemma residualPoint_advance (E : Carried F (s.residualPoint n) limit ws p out) :
    (s.advance ws out).residualPoint n
      = ws.remainder n (s.residualPoint n) ws.factorization.size := by
  rw [State.residualPoint, State.advance, E.residual, Tensor.ofVec, toSpace_ofSpace]

lemma point_advance (T : Consistent n capacity s)
    (E : Carried F (s.residualPoint n) limit ws p out) :
    (s.advance ws out).point n = s.point n + toSpace n out.update := by
  have length : out.update.length = n := by rw [E.update, length_ofSpace]
  exact toSpace_add T.update length

/-- A cycle leaves the parts of the state together. -/
theorem Consistent.advance (T : Consistent n capacity s) (reset : ws.reset = .empty n capacity)
    (E : Carried F (s.residualPoint n) limit ws p out) :
    Consistent n capacity (s.advance ws out) where
  workspace := reset
  update := by
    rw [State.advance, length_add, T.update, E.update, length_ofSpace, min_self]
  residual := by
    rw [residualPoint_advance E]
    exact E.residual
  norm := by
    rw [residualPoint_advance E]
    exact E.norm
  last := by
    have ends := E.getLast?_history
    rw [List.getLast?_cons, ← T.norm] at ends
    change (s.history ++ out.history).getLast? = some out.norm
    rw [List.getLast?_append, T.last, ← ends]
    cases out.history.getLast? <;> rfl

/-- What a cycle of a linear operator does to the residual of the sum of the updates. -/
theorem Consistent.sub_map_advance {B : Space n →ₗ[ℝ] Space n} {tolerance : ℝ}
    (T : Consistent n capacity s) (E : Finished B (s.residualPoint n) tolerance limit ws p out) :
    s.residualPoint n - B ((s.advance ws out).point n - s.point n)
      = (s.advance ws out).residualPoint n + gap n ws := by
  rw [point_advance T E.carried, add_sub_cancel_left, E.sub_map_update,
    residualPoint_advance E.carried]

end Advance

/-! ### All cycles -/

/-- The end of a cycle: there is no gap exactly if the equations without a pivot hold, and this can
be told from the norms. -/
structure Ended (n : ℕ) (c : State ℝ) : Prop where
  gap : gap n c.workspace = 0 ↔ Matched c.workspace
  norm : ‖c.residualPoint n + Cycle.gap n c.workspace‖ = ‖c.residualPoint n‖
    ↔ Cycle.gap n c.workspace = 0

/-- The sum of the gaps of some cycles. -/
noncomputable def gaps (n : ℕ) (cs : List (State ℝ)) : Space n :=
  (cs.map fun c => gap n c.workspace).sum

lemma gaps_eq_zero {cs : List (State ℝ)} (ended : ∀ c ∈ cs, Ended n c)
    (matched : ∀ c ∈ cs, Matched c.workspace) : gaps n cs = 0 := by
  apply List.sum_eq_zero
  intro g member
  obtain ⟨c, inside, rfl⟩ := List.mem_map.mp member
  exact (ended c inside).gap.mpr (matched c inside)

lemma ended_advance {B : Space n →ₗ[ℝ] Space n} {s : State ℝ} {limit : ℕ} {tolerance : ℝ}
    {ws : Workspace ℝ} {p : Progress ℝ} {out : Outcome ℝ}
    (E : Finished B (s.residualPoint n) tolerance limit ws p out) :
    Ended n (s.advance ws out) where
  gap := E.projected.gap_eq_zero_iff
  norm := by
    rw [residualPoint_advance E.carried]
    exact E.projected.norm_add_gap_eq_iff

/-- The cycles of a linear operator go through. The residual of the sum of the updates is the one
that is carried along, and the gaps of all cycles. -/
theorem cycles_residual {op : Operator ℝ} {B : Space n →ₗ[ℝ] Space n} (acts : ActsAs op B)
    {capacity : ℕ} (fits : capacity ≤ n) (room : 0 < capacity) (ν : ℝ) (remaining : ℕ)
    {tolerance : ℝ} (nonneg : 0 ≤ tolerance) {limit : ℕ} {s : State ℝ}
    (T : Consistent n capacity s) (large : tolerance < s.norm) (positive : 0 < limit) :
    ∃ last, cycles op ν tolerance remaining limit s = .ok last ∧ Consistent n capacity last ∧
      (trace op ν tolerance remaining limit s).getLast? = some last ∧
      (∀ c ∈ trace op ν tolerance remaining limit s, Ended n c) ∧
      s.residualPoint n - B (last.point n - s.point n)
        = last.residualPoint n + gaps n (trace op ν tolerance remaining limit s) := by
  -- By strong induction on the steps that are left. The updates add up, and every cycle adds its
  -- own gap to what it leaves.
  induction remaining using Nat.strong_induction_on generalizing limit s with
  | _ remaining ih =>
    have nonzero : s.residualPoint n ≠ 0 := by
      rw [← norm_pos_iff, ← T.norm]
      exact nonneg.trans_lt large
    obtain ⟨ws, p, out, run, reset, E⟩ := run_ends acts fits T.workspace nonzero ν tolerance
      (show (min (limit : Int) capacity).toNat ≠ 0 by omega)
    rw [← T.residual, ← T.norm] at run
    have moved := T.sub_map_advance E
    rw [cycles_of_run run, trace_of_run run]
    by_cases goes_on : tolerance < out.norm ∧ out.steps < remaining ∧ 0 < out.steps
    · rw [if_pos goes_on, if_pos goes_on]
      obtain ⟨above, fewer, some_step⟩ := goes_on
      obtain ⟨last, ran, kept, final, ended, rest⟩ :=
        ih (remaining - out.steps) (by omega) (T.advance reset E.carried) above
          (show 0 < min limit (remaining - out.steps) by omega)
      refine ⟨last, ran, kept, ?_, ?_, ?_⟩
      · rw [List.getLast?_cons, final]
        rfl
      · intro c member
        rcases List.mem_cons.mp member with first | later
        · rw [first]
          exact ended_advance E
        · exact ended c later
      · rw [gaps, List.map_cons, List.sum_cons]
        have split : last.point n - s.point n
            = (last.point n - (s.advance ws out).point n)
              + ((s.advance ws out).point n - s.point n) := by module
        rw [split, map_add, ← sub_sub, sub_right_comm, moved, add_sub_right_comm, rest, gaps,
          State.advance]
        module
    · rw [if_neg goes_on, if_neg goes_on]
      refine ⟨s.advance ws out, rfl, T.advance reset E.carried, rfl, ?_, ?_⟩
      · intro c member
        rw [List.mem_singleton.mp member]
        exact ended_advance E
      · rw [moved, gaps, List.map_singleton, List.sum_singleton]
        rfl

/-! ### The method -/

section Solve

variable {A : LinearOperator ℝ} {o : LinearOptions ℝ} {f : Operator ℝ}
  {M L R : Space n →ₗ[ℝ] Space n}

lemma residual_ne_zero {tolerance : ℝ} {r : Space n} (work : tolerance * ‖r‖ < ‖r‖) : r ≠ 0 := by
  intro zero
  rw [zero, norm_zero, mul_zero] at work
  exact lt_irrefl 0 work

lemma Linear.runCycles_residual (linear : Linear n A o f M L R) (limits : LimitsOk n o)
    (nonneg : 0 ≤ o.tolerance) (r : Space n) :
    ∃ last, runCycles n o f (ofSpace r) = .ok last ∧ Consistent n (cycleLimit n o) last ∧
      (∀ c ∈ (visited n o f (ofSpace r)).getLast?, c = last) ∧
      (∀ c ∈ visited n o f (ofSpace r), Ended n c) ∧
      r - (L ∘ₗ M ∘ₗ R) (last.point n)
        = last.residualPoint n + gaps n (visited n o f (ofSpace r)) := by
  have T := consistent_start o r
  have residual : (start n o (ofSpace r)).residualPoint n = r := toSpace_ofSpace r
  have point : (start n o (ofSpace r)).point n = 0 := toSpace_zeros n
  unfold runCycles visited
  by_cases work : o.tolerance * Vec.norm (ofSpace r) < Vec.norm (ofSpace r) ∧ 0 < stepsAllowed n o
  · rw [if_pos work, if_pos work]
    have bound : 0 ≤ o.tolerance * Vec.norm (ofSpace r) :=
      mul_nonneg nonneg (Vec.norm_nonneg _)
    have nonzero : r ≠ 0 := by
      rw [norm_ofSpace] at work
      exact residual_ne_zero work.1
    have dimension := dimension_pos_of_ne_zero nonzero
    have room := limits.cycleLimit_pos dimension work.2
    obtain ⟨last, ran, kept, final, ended, moved⟩ :=
      cycles_residual linear.actsAs_preconditioned (cycleLimit_le n o) room o.threshold
        (stepsAllowed n o).toNat bound T work.1 room
    rw [residual, point, sub_zero] at moved
    refine ⟨last, ran, kept, ?_, ended, moved⟩
    intro c member
    rw [final] at member
    exact (Option.mem_some.mp member).symm
  · rw [if_neg work, if_neg work]
    refine ⟨start n o (ofSpace r), rfl, T, by simp, by simp, ?_⟩
    rw [residual, point, gaps]
    simp

/-- With room for as many steps as there are dimensions one cycle is enough. -/
lemma runCycles_of_finished {F : Space n → Space n} (full : LimitsFull n o)
    (nonneg : 0 ≤ o.tolerance) (dimension : 0 < n) {r : Space n} (work : o.tolerance * ‖r‖ < ‖r‖)
    {ws : Workspace ℝ} {p : Progress ℝ} {out : Outcome ℝ}
    (run : (Cycle.run (preconditioned o f) (Tensor.ofVec (ofSpace r)) ‖r‖ (.ok o.threshold)
      (.ok (o.tolerance * ‖r‖)) n).run (.empty n n) = (.ok out, ws))
    (E : Finished F r (o.tolerance * ‖r‖) n ws p out) :
    ∃ last, runCycles n o f (ofSpace r) = .ok last ∧ last.update = out.update ∧
      last.history = ‖r‖ :: out.history := by
  have room := full.le_stepsAllowed
  have reached := E.norm_le (by positivity)
  refine ⟨(start n o (ofSpace r)).advance ws out, runCycles_of_run ?_ ?_ ?_, ?_, ?_⟩
  · rw [norm_ofSpace]
    exact ⟨work, by omega⟩
  · rw [norm_ofSpace, full.cycleLimit_eq]
    exact run
  · rw [norm_ofSpace]
    exact not_lt.mpr reached
  · change add (zeros n) out.update = out.update
    rw [E.update, ← ofSpace_zero, ← ofSpace_add, zero_add]
  · change [Vec.norm (ofSpace r)] ++ out.history = ‖r‖ :: out.history
    rw [norm_ofSpace, List.singleton_append]

lemma runCycles_of_small {r : Space n} (small : ¬ o.tolerance * ‖r‖ < ‖r‖) :
    runCycles n o f (ofSpace r) = .ok (start n o (ofSpace r)) := by
  unfold runCycles
  rw [norm_ofSpace, if_neg fun work => small work.1]

/-- With room for as many steps as there are dimensions the history ends at or below the tolerance,
for every linear operator, whether or not there is a solution. -/
theorem Linear.history_reaches (linear : Linear n A o f M L R) (full : LimitsFull n o)
    (nonneg : 0 ≤ o.tolerance) (dimension : 0 < n) {b x₀ : Space n} (guess : GuessIs n o x₀) :
    ∃ x : Space n, ∃ history c,
      solve A (Tensor.ofVec (ofSpace b)) o = .ok ⟨Tensor.ofVec (ofSpace x), history⟩ ∧
      history.getLast? = some c ∧ c ≤ o.tolerance * ‖L (b - M x₀)‖ := by
  have limits := full.limitsOk dimension
  by_cases work : o.tolerance * ‖L (b - M x₀)‖ < ‖L (b - M x₀)‖
  · have some_step : (min (n : Int) n).toNat ≠ 0 := by omega
    obtain ⟨ws, p, out, run, -, E⟩ := run_ends linear.actsAs_preconditioned le_rfl
      (show (Workspace.empty n n).reset = _ from rfl) (residual_ne_zero work) o.threshold
      (o.tolerance * ‖L (b - M x₀)‖) some_step
    rw [min_self, Int.toNat_natCast] at E
    obtain ⟨last, ran, update, history⟩ :=
      runCycles_of_finished full nonneg dimension work run E
    have length : last.update.length = n := by rw [update, E.update, length_ofSpace]
    refine ⟨_, _, out.norm, linear.solve_eq limits guess ran length, ?_, ?_⟩
    · rw [history, List.getLast?_cons, E.getLast?_history]
      rfl
    · exact E.norm_le (by positivity)
  · refine ⟨_, _, ‖L (b - M x₀)‖,
      linear.solve_eq limits guess (runCycles_of_small work) (length_zeros n), ?_, not_lt.mp work⟩
    change [Vec.norm (ofSpace (L (b - M x₀)))].getLast? = _
    rw [norm_ofSpace]
    rfl

/-- The method with linear operator and preconditioners, singular ones included. The residual of the
solution is the one whose norm ends the history, and the gaps of all cycles. If no cycle before the
last has a gap, the history ends with the residual norm of the solution exactly if the equations
without a pivot hold in the last cycle. -/
theorem Linear.solve_residual (linear : Linear n A o f M L R) (limits : LimitsOk n o)
    (nonneg : 0 ≤ o.tolerance) {b x₀ : Space n} (guess : GuessIs n o x₀) :
    ∃ x carried history,
      solve A (Tensor.ofVec (ofSpace b)) o = .ok ⟨Tensor.ofVec (ofSpace x), history⟩ ∧
      (∀ c ∈ (visited n o f (ofSpace (L (b - M x₀)))).getLast?, c.history = history) ∧
      history.getLast? = some ‖carried‖ ∧
      L (b - M x) = carried + gaps n (visited n o f (ofSpace (L (b - M x₀)))) ∧
      ((∀ c ∈ (visited n o f (ofSpace (L (b - M x₀)))).dropLast, Matched c.workspace) →
        (history.getLast? = some ‖L (b - M x)‖ ↔
          ∀ c ∈ (visited n o f (ofSpace (L (b - M x₀)))).getLast?, Matched c.workspace)) := by
  obtain ⟨last, ran, kept, final, ended, moved⟩ :=
    linear.runCycles_residual limits nonneg (L (b - M x₀))
  generalize visited n o f (ofSpace (L (b - M x₀))) = cs at final ended moved ⊢
  have residual : L (b - M (x₀ + R (last.point n))) = last.residualPoint n + gaps n cs := by
    rw [← moved, residual_of_update]
  have ends : last.history.getLast? = some ‖last.residualPoint n‖ := by rw [kept.last, kept.norm]
  refine ⟨x₀ + R (last.point n), last.residualPoint n, last.history,
    linear.solve_eq limits guess ran kept.update, ?_, ends, residual, ?_⟩
  · intro c member
    rw [final c member]
  intro earlier
  rw [ends, residual, Option.some.injEq, eq_comm]
  -- Without a cycle there is no gap at all. Otherwise the earlier ones have none by assumption, and
  -- the last decides.
  rcases List.eq_nil_or_concat cs with none | ⟨before, c, some⟩
  · subst none
    simp [gaps]
  · rw [List.concat_eq_append] at some
    subst some
    rw [List.dropLast_concat] at earlier
    rw [List.getLast?_concat] at final ⊢
    obtain rfl : c = last := final c rfl
    have sum : gaps n (before ++ [c]) = gap n c.workspace := by
      have none := gaps_eq_zero (fun d member => ended d (List.mem_append_left [c] member)) earlier
      rw [gaps] at none ⊢
      rw [List.map_append, List.sum_append, none, zero_add, List.map_singleton,
        List.sum_singleton]
    have end_of_last := ended c (List.mem_append_right before (List.mem_singleton_self c))
    rw [sum, end_of_last.norm, end_of_last.gap]
    simp

end Solve

/-! ### The matrix zero -/

/-- The matrix of order one with the entry zero. -/
noncomputable def zeroMatrix : Tensor ℝ := ⟨[1, 1], [0]⟩

/-- The usual tolerance and threshold, and no preconditioners. -/
noncomputable def usualOptions : LinearOptions ℝ :=
  { tolerance := 1 / 10 ^ 10, threshold := 9 / 10 }

lemma toMatrix_zeroMatrix : zeroMatrix.toMatrix 1 = 0 := by
  ext i j
  fin_cases i
  fin_cases j
  rfl

lemma linear_zeroMatrix : Linear 1 (.matrix zeroMatrix) usualOptions zeroMatrix.product
    (Matrix.toEuclideanLin (zeroMatrix.toMatrix 1)) LinearMap.id LinearMap.id :=
  have square : zeroMatrix.IsSquare 1 := ⟨rfl, rfl⟩
  ⟨rfl, square.actsAs_product, ActsAs.ok, ActsAs.ok⟩

lemma limitsFull_usualOptions (n : ℕ) : LimitsFull n usualOptions where
  restart := by simp [usualOptions]
  steps := by simp [usualOptions]

lemma usualOptions_tolerance_nonneg : 0 ≤ usualOptions.tolerance := by norm_num [usualOptions]

/-- The matrix zero, where the residual is the right hand side. -/
theorem solve_residual_zeroMatrix :
    ∃ x carried : Space 1, ∃ history,
      solve (.matrix zeroMatrix) (Tensor.ofVec (ofSpace !₂[1])) usualOptions
        = .ok ⟨Tensor.ofVec (ofSpace x), history⟩ ∧
      history.getLast? = some ‖carried‖ ∧
      (!₂[1] : Space 1)
        = carried + gaps 1 (visited 1 usualOptions zeroMatrix.product (ofSpace !₂[1])) := by
  obtain ⟨x, carried, history, solved, -, ends, residual, -⟩ := linear_zeroMatrix.solve_residual
    ((limitsFull_usualOptions 1).limitsOk one_pos) usualOptions_tolerance_nonneg
    (b := !₂[1]) (Or.inr ⟨rfl, rfl⟩)
  rw [toMatrix_zeroMatrix, map_zero, LinearMap.zero_apply, LinearMap.zero_apply, sub_zero,
    LinearMap.id_apply] at residual
  exact ⟨x, carried, history, solved, ends, residual⟩

/-- For the matrix zero the history does not end with the residual norm of the solution. -/
theorem history_ne_residual_zeroMatrix :
    ∃ x : Space 1, ∃ history,
      solve (.matrix zeroMatrix) (Tensor.ofVec (ofSpace !₂[1])) usualOptions
        = .ok ⟨Tensor.ofVec (ofSpace x), history⟩ ∧
      history.getLast?
        ≠ some ‖(!₂[1] : Space 1) - Matrix.toEuclideanLin (zeroMatrix.toMatrix 1) x‖ := by
  obtain ⟨x, history, c, solved, ends, small⟩ := linear_zeroMatrix.history_reaches
    (limitsFull_usualOptions 1) usualOptions_tolerance_nonneg one_pos
    (b := !₂[1]) (Or.inr ⟨rfl, rfl⟩)
  have unit : ‖(!₂[1] : Space 1)‖ = 1 := by simp [EuclideanSpace.norm_eq]
  rw [map_zero, sub_zero, LinearMap.id_apply, unit] at small
  refine ⟨x, history, solved, ?_⟩
  rw [toMatrix_zeroMatrix, map_zero, LinearMap.zero_apply, sub_zero, unit, ends]
  intro same
  rw [Option.some.inj same] at small
  norm_num [usualOptions] at small

end LinearSystem

end NewtonKrylov
