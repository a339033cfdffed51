import NewtonKrylov.Proofs.Krylov.Run
import NewtonKrylov.Proofs.Space

/-!
# Cycles on multiples of a residual

A direction is a normalized residual or a column of the orthogonal factor, and every test of a cycle
compares norms with each other or with the tolerance. So a cycle from `c` times a residual, for a
positive `c`, makes the same choices. It asks the operator for the images of the same directions,
and finds the same orthogonal and triangular factors. The coefficients, the update, the residual and
the norms are `c` times what they were.

This is so in exact arithmetic, for whatever the operator does: `run_smul` is about cycles that fail
as well.
-/

namespace NewtonKrylov

variable {c : ℝ}

/-! ### Multiples of vectors and arrays -/

namespace Vec

@[simp] lemma smul_nil (c : ℝ) : smul c [] = [] := rfl

@[simp] lemma smul_cons (c a : ℝ) (v : Vec ℝ) : smul c (a :: v) = c * a :: smul c v := rfl

@[simp] lemma smul_append (c : ℝ) (u v : Vec ℝ) : smul c (u ++ v) = smul c u ++ smul c v :=
  List.map_append

@[simp] lemma smul_zeros (c : ℝ) (n : ℕ) : smul c (zeros n) = zeros n := by
  simp [smul, zeros]

lemma smul_zipWith (c : ℝ) {f : ℝ → ℝ → ℝ} (each : ∀ a b, c * f a b = f (c * a) (c * b))
    (u v : Vec ℝ) : smul c (List.zipWith f u v) = List.zipWith f (smul c u) (smul c v) := by
  rw [smul, List.map_zipWith, smul, smul, List.zipWith_map]
  simp only [each]

protected lemma smul_add (c : ℝ) (u v : Vec ℝ) : smul c (add u v) = add (smul c u) (smul c v) :=
  smul_zipWith c (mul_add c) u v

protected lemma smul_sub (c : ℝ) (u v : Vec ℝ) : smul c (sub u v) = sub (smul c u) (smul c v) :=
  smul_zipWith c (mul_sub c) u v

protected lemma mul_smul (c a : ℝ) (v : Vec ℝ) : smul (c * a) v = smul c (smul a v) := by
  simp [smul, mul_assoc]

lemma dot_smul_right (c : ℝ) (u v : Vec ℝ) : dot u (smul c v) = c * dot u v := by
  induction u generalizing v with
  | nil => simp [dot]
  | cons a u ih =>
    cases v with
    | nil => simp [dot]
    | cons b v =>
      rw [smul_cons, dot_cons, dot_cons, ih]
      ring

lemma dot_comm (u v : Vec ℝ) : dot u v = dot v u := by
  rw [dot, dot, List.zipWith_comm]
  simp only [mul_comm]

protected lemma norm_smul_of_nonneg (nonneg : 0 ≤ c) (v : Vec ℝ) :
    norm (smul c v) = c * norm v := by
  rw [norm, dot_smul_right, dot_comm, dot_smul_right, ← mul_assoc, Scalar.sqrt_real,
    Real.sqrt_mul (mul_self_nonneg c), Real.sqrt_mul_self nonneg]
  rfl

lemma linearCombination_smul (c : ℝ) (n : ℕ) (cs : Vec ℝ) (zs : List (Vec ℝ)) :
    linearCombination n (smul c cs) zs = smul c (linearCombination n cs zs) := by
  induction cs generalizing zs with
  | nil => simp [linearCombination]
  | cons a cs ih =>
    cases zs with
    | nil => simp [linearCombination]
    | cons z zs =>
      rw [smul_cons, linearCombination, linearCombination, ih, Vec.mul_smul, Vec.smul_add]

end Vec

namespace Tensor

protected lemma norm_smul_of_nonneg (nonneg : 0 ≤ c) (t : Tensor ℝ) :
    (t.smul c).norm = c * t.norm :=
  Vec.norm_smul_of_nonneg nonneg t.entries

lemma number_smul (c : ℝ) (t : Tensor ℝ) : (t.smul c).number = t.number.map (c * ·) := by
  obtain ⟨shape, entries⟩ := t
  cases shape with
  | cons => rfl
  | nil =>
    match entries with
    | [] => rfl
    | [_] => rfl
    | _ :: _ :: _ => rfl

/-- Only vectors of one length have a product. -/
lemma length_eq_of_product {u v : Vec ℝ} {t : Tensor ℝ}
    (multiplied : product (ofVec u) (ofVec v) = .ok t) : u.length = v.length := by
  by_contra different
  simp [product, ofVec, different] at multiplied

lemma product_smul (c : ℝ) (q r : Vec ℝ) :
    product (ofVec q) ((ofVec r).smul c) = (product (ofVec q) (ofVec r)).map (smul c) := by
  rw [smul_ofVec]
  simp only [product, ofVec, Vec.length_smul]
  split_ifs
  · simp [Vec.dot_smul_right, Except.map, smul, ofScalar, map]
  · rfl

lemma combine_sub_smul (c : ℝ) {u v : Vec ℝ} (same : u.length = v.length) :
    combine (· - ·) ((ofVec u).smul c) (ofVec (Vec.smul c v))
      = (combine (· - ·) (ofVec u) (ofVec v)).map (smul c) := by
  rw [smul_ofVec, combine_ofVec _ (by simpa using same), combine_ofVec _ same, Except.map,
    smul_ofVec]
  exact congrArg (fun w => Except.ok (ofVec w)) (Vec.smul_sub c u v).symm

end Tensor

/-! ### Multiples of right hand sides -/

namespace Triangular

open Vec

lemma backSubstitute_smul (c : ℝ) (rows : Rows ℝ) (b : Vec ℝ) :
    backSubstitute rows (smul c b) = smul c (backSubstitute rows b) := by
  induction b generalizing rows with
  | nil => simp [backSubstitute]
  | cons a b ih =>
    match rows with
    | [] => rfl
    | [] :: _ => rfl
    | (pivot :: tail) :: rows =>
      rw [smul_cons, backSubstitute, backSubstitute, ih, smul_cons, dot_smul_right, ← mul_sub]
      split_ifs
      · rw [mul_zero]
      · rw [mul_div_assoc]

lemma solve_smul (c : ℝ) (R : Rows ℝ) (b : Vec ℝ) :
    solve R (smul c b) = (solve R b).map (smul c) := by
  simp only [solve, length_smul]
  split_ifs
  · rfl
  · rfl
  · rw [backSubstitute_smul]
    rfl

/-- The product of entries with those of a multiple, where a single entry is spread. -/
lemma combine_mul_smul (c : ℝ) (s w : Vec ℝ) :
    combine (· * ·) s (smul c w) = (combine (· * ·) s w).map (smul c) := by
  unfold combine
  rw [length_smul]
  split_ifs with same
  · rw [smul, List.zipWith_map_right, Except.map, smul, List.map_zipWith]
    simp only [mul_left_comm]
  · cases s with
    | nil => rcases w with - | ⟨b, - | ⟨b', w⟩⟩ <;> rfl
    | cons a s =>
      cases s with
      | nil => simp [smul, Except.map, Function.comp_def, mul_left_comm]
      | cons a' s =>
        rcases w with - | ⟨b, - | ⟨b', w⟩⟩
        · rfl
        · simp [smul, Except.map, Function.comp_def, mul_left_comm]
        · rfl

lemma solveScaled_smul (c : ℝ) (R : Rows ℝ) (b : Vec ℝ) :
    solveScaled R (smul c b) = (solveScaled R b).map (smul c) := by
  simp only [solveScaled, solve_smul]
  cases solve (R.scaleColumns (columnScales R)) b with
  | ok w => exact combine_mul_smul c _ w
  | error e => rfl

/-- The condition of the matrix does not depend on the right hand side. -/
lemma leastSquares_smul (c : ℝ) (R : Rows ℝ) (b : Vec ℝ) :
    leastSquares R (smul c b) = (leastSquares R b).map (smul c) := by
  unfold leastSquares
  split_ifs
  · rfl
  · exact solve_smul c R b
  · exact solveScaled_smul c R b

end Triangular

/-! ### Multiples of residuals -/

/-- A work space with multiples of the coefficients. -/
noncomputable def Workspace.smul (c : ℝ) (ws : Workspace ℝ) : Workspace ℝ :=
  { ws with coefficients := Vec.smul c ws.coefficients }

namespace Workspace

variable (c : ℝ) (ws : Workspace ℝ)

@[simp] lemma dimension_smul : (ws.smul c).dimension = ws.dimension := rfl

@[simp] lemma capacity_smul : (ws.smul c).capacity = ws.capacity := rfl

@[simp] lemma directions_smul : (ws.smul c).directions = ws.directions := rfl

@[simp] lemma factorization_smul : (ws.smul c).factorization = ws.factorization := rfl

@[simp] lemma coefficients_smul : (ws.smul c).coefficients = Vec.smul c ws.coefficients := rfl

@[simp] lemma reset_smul : (ws.smul c).reset = ws.reset.smul c := rfl

end Workspace

namespace Cycle

open Vec

/-- What a step hands on, from a multiple of the residual. -/
noncomputable def Progress.smul (c : ℝ) (p : Progress ℝ) : Progress ℝ :=
  ⟨p.residual.smul c, c * p.norm, c * p.previousNorm, p.column⟩

/-- The result of a cycle from a multiple of the residual. -/
noncomputable def Outcome.smul (c : ℝ) (out : Outcome ℝ) : Outcome ℝ :=
  ⟨Vec.smul c out.update, out.residual.smul c, c * out.norm, out.steps, Vec.smul c out.history⟩

/-- The residual is a vector. -/
def Progress.IsVector (p : Progress ℝ) : Prop := ∃ r : Vec ℝ, p.residual = Tensor.ofVec r

variable {op : Operator ℝ} {ν tolerance : Setting ℝ} {p : Progress ℝ} {ws : Workspace ℝ}

lemma mul_beq_zero (positive : 0 < c) (a : ℝ) : (c * a == 0) = (a == 0) := by
  rw [Bool.eq_iff_iff, beq_iff_eq, beq_iff_eq, mul_eq_zero, or_iff_right positive.ne']

lemma after_smul (positive : 0 < c) (norm previous threshold : ℝ) :
    DirectionSource.after (c * norm) (c * previous) threshold
      = DirectionSource.after norm previous threshold := by
  refine if_congr ?_ rfl rfl
  rw [mul_left_comm, mul_le_mul_iff_of_pos_left positive]

/-- The normalized residual is the same for all multiples. -/
lemma direction_smul (positive : 0 < c) (source : DirectionSource) (r : Tensor ℝ) (norm : ℝ)
    (q : Tensor ℝ) : source.direction (r.smul c) (c * norm) q = source.direction r norm q := by
  cases source with
  | column => rfl
  | residual =>
    simp only [DirectionSource.direction, Tensor.map, Tensor.smul, List.map_map, Tensor.mk.injEq,
      true_and]
    exact List.map_congr_left fun a _ => mul_div_mul_left a norm positive.ne'

lemma nextDirection_smul (positive : 0 < c) (ν : Setting ℝ) (p : Progress ℝ) :
    nextDirection ν (p.smul c) = nextDirection ν p := by
  unfold nextDirection Progress.smul
  cases p.column with
  | none =>
    have same := direction_smul positive .residual p.residual p.norm p.residual
    exact congrArg (fun z => Except.ok (DirectionSource.residual, z)) same
  | some q =>
    simp only [after_smul positive, direction_smul positive]

/-- A step hands on a vector if it got one. -/
lemma StepsTo.isVector {p' : Progress ℝ} {ws' : Workspace ℝ} (next : StepsTo p ws p' ws')
    (vector : p.IsVector) : p'.IsVector := by
  obtain ⟨r, residual⟩ := vector
  cases next with
  | intro choice z w a multiplied number subtracted =>
    rw [residual] at multiplied subtracted
    have same := Tensor.length_eq_of_product multiplied
    rw [Tensor.combine_ofVec _ (by rw [length_smul, same])] at subtracted
    exact ⟨_, (Except.ok.inj subtracted).symm⟩

/-- A step from a multiple of the residual. -/
theorem step_smul (positive : 0 < c) (op : Operator ℝ) (ν : Setting ℝ) (vector : p.IsVector)
    (ws : Workspace ℝ) :
    Mirrors (Progress.smul c) (Workspace.smul c) (step op ν p) (step op ν (p.smul c)) ws := by
  obtain ⟨r, residual⟩ := vector
  unfold step
  rw [nextDirection_smul positive]
  simp only [Progress.smul, residual]
  -- Up to the factorization of the image both steps do the same.
  refine .same_bind fun (choice, z) _ => .get_bind (.same_bind fun stored _ => ?_)
  refine .set_bind rfl (.same_bind fun image _ => .same_bind fun f _ => .modify_bind rfl ?_)
  refine .lift_bind (Tensor.product_smul c _ r) fun product multiplied => ?_
  refine .lift_bind (Tensor.number_smul c product) fun a _ => ?_
  have same := Tensor.length_eq_of_product multiplied
  refine .modify_bind (by simp [Workspace.smul]) ?_
  rw [Vec.mul_smul]
  refine .lift_bind (Tensor.combine_sub_smul c (by rw [length_smul, same])) fun left _ => ?_
  exact .pure (by simp only [Progress.smul, Tensor.norm_smul_of_nonneg positive.le])

/-- A pair of what the loop hands on and its norms, from a multiple of the residual. -/
noncomputable def smulLoop (c : ℝ) (result : Progress ℝ × List ℝ) : Progress ℝ × List ℝ :=
  (result.1.smul c, Vec.smul c result.2)

lemma iterate_isVector (vector : p.IsVector) (N : ℕ) :
    Leads (iterate op ν tolerance N p) ws (fun result _ => result.1.IsVector) fun _ => True := by
  induction N generalizing p ws with
  | zero => exact vector
  | succ N ih =>
    rw [iterate]
    refine (step_stepsTo op ν p ws).bind fun p' ws' step => .lift_bind trivial fun bound _ => ?_
    -- The residual stays a vector also through steps whose operator gives something else.
    have next := step.isVector vector
    split_ifs
    · exact next
    · exact (ih next).bind fun result ws'' last => last

/-- The loop from a multiple of the residual stops where it did. -/
theorem iterate_smul (positive : 0 < c) (op : Operator ℝ) (ν tolerance : Setting ℝ) (N : ℕ)
    (vector : p.IsVector) (ws : Workspace ℝ) :
    Mirrors (smulLoop c) (Workspace.smul c) (iterate op ν tolerance N p)
      (iterate op ν (tolerance.map (c * ·)) N (p.smul c)) ws := by
  induction N generalizing p ws with
  | zero => exact .pure rfl
  | succ N ih =>
    rw [iterate, iterate]
    refine (step_smul positive op ν vector ws).bind fun p' ws' ran => ?_
    have next := ((step_stepsTo op ν p ws).result ran).isVector vector
    refine .lift_bind rfl fun bound _ => ?_
    -- Both sides of the stopping test are scaled, so both loops stop at the same step.
    have stops : ((p'.smul c).norm < c * bound ∨ ((p'.smul c).norm == 0) = true)
        ↔ (p'.norm < bound ∨ (p'.norm == 0) = true) := by
      rw [Progress.smul, mul_beq_zero positive, mul_lt_mul_iff_of_pos_left positive]
    by_cases stop : p'.norm < bound ∨ (p'.norm == 0) = true
    · rw [if_pos stop, if_pos (stops.mpr stop)]
      exact .pure rfl
    · rw [if_neg stop, if_neg fun scaled => stop (stops.mp scaled)]
      exact (ih next ws').bind fun result ws'' _ => .pure rfl

/-- A cycle ends with a vector if it started from one. -/
lemma run_isVector (r : Vec ℝ) (norm : ℝ) (maxSteps : ℤ) :
    Leads (run op (Tensor.ofVec r) norm ν tolerance maxSteps) ws
      (fun out _ => ∃ r' : Vec ℝ, out.residual = Tensor.ofVec r') fun _ => True := by
  unfold run
  rw [leads_bind, leads_modify, leads_bind, leads_get]
  extract_lets steps
  split_ifs
  · exact ⟨r, rfl⟩
  · exact ⟨r, rfl⟩
  refine (iterate_isVector ⟨r, rfl⟩ steps).bind fun result ws' vector => ?_
  rw [leads_bind, leads_get]
  exact .lift_bind trivial fun y _ => vector

/-- A cycle from a multiple of a residual, with the same multiple of its norm and of the tolerance,
comes to this multiple of what the cycle from the residual comes to. It takes the same steps in the
same directions, and leaves the same factorization. -/
theorem run_smul (positive : 0 < c) (op : Operator ℝ) (r : Vec ℝ) (norm : ℝ)
    (ν tolerance : Setting ℝ) (maxSteps : ℤ) (ws : Workspace ℝ) :
    Mirrors (Outcome.smul c) (Workspace.smul c)
      (run op (Tensor.ofVec r) norm ν tolerance maxSteps)
      (run op (Tensor.ofVec (Vec.smul c r)) (c * norm) ν (tolerance.map (c * ·)) maxSteps) ws := by
  unfold run
  refine .modify_bind (ws.reset_smul c) (.get_bind ?_)
  simp only [mul_beq_zero positive]
  by_cases zero : (norm == 0) = true
  · rw [if_pos zero, if_pos zero]
    exact .pure (by simp [Outcome.smul])
  rw [if_neg zero, if_neg zero]
  by_cases none : (min maxSteps ws.reset.capacity).toNat = 0
  · rw [if_pos none, if_pos (show (min maxSteps (ws.reset.smul c).capacity).toNat = 0 from none)]
    exact .pure (by simp [Outcome.smul])
  rw [if_neg none, if_neg (show ¬(min maxSteps (ws.reset.smul c).capacity).toNat = 0 from none)]
  have start : Progress.smul c ⟨Tensor.ofVec r, norm, norm, .none⟩
      = ⟨Tensor.ofVec (Vec.smul c r), c * norm, c * norm, .none⟩ := by
    rw [Progress.smul, Tensor.smul_ofVec]
  have vector : Progress.IsVector ⟨Tensor.ofVec r, norm, norm, .none⟩ := ⟨r, rfl⟩
  rw [← start]
  refine (iterate_smul positive op ν tolerance _ vector _).bind fun result ws' _ => ?_
  refine .get_bind (.lift_bind (Triangular.leastSquares_smul c _ _) fun y _ => .pure ?_)
  simp [Outcome.smul, smulLoop, Progress.smul, linearCombination_smul]

end Cycle

end NewtonKrylov
