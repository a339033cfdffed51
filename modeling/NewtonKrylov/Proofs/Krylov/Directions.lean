import NewtonKrylov.Proofs.Krylov.Run
import NewtonKrylov.Proofs.Operator

/-!
# What a cycle asks its operator

In exact arithmetic a cycle applies its operator to unit vectors only. A direction is either a
normalized residual or a column of the orthogonal factor, and the columns have norm one whatever the
images of the directions before were, zero included. So two operators that agree on the unit vectors
have the same cycles, also where the operator fails in the middle of one.
-/

namespace NewtonKrylov

open Vec
open scoped InnerProductSpace

/-- A vector of length `n` with norm one. -/
structure IsDirection (n : ℕ) (z : Vec ℝ) : Prop where
  length : z.length = n
  norm : Vec.norm z = 1

/-- Where the operator is defined on vectors of length `n`, its values are such vectors. -/
def MapsVectors (n : ℕ) (op : Operator ℝ) : Prop :=
  ∀ (z : Vec ℝ) (y : Tensor ℝ), z.length = n → op (Tensor.ofVec z) = .ok y →
    ∃ w : Vec ℝ, w.length = n ∧ y = Tensor.ofVec w

/-- The operators agree on the vectors of length `n` with norm one. -/
def AgreeOnDirections (n : ℕ) (op op' : Operator ℝ) : Prop :=
  ∀ z : Vec ℝ, IsDirection n z → op (Tensor.ofVec z) = op' (Tensor.ofVec z)

variable {n m : ℕ}

lemma isDirection_divBy {r : Vec ℝ} (length : r.length = n) (nonzero : norm r ≠ 0) :
    IsDirection n (divBy r (norm r)) := by
  have same : (divBy r (norm r)).length = n := by rw [length_divBy, length]
  refine ⟨same, ?_⟩
  rw [← norm_toSpace same, toSpace_divBy, norm_smul, norm_toSpace length, norm_inv,
    Real.norm_of_nonneg (Vec.norm_nonneg r), inv_mul_cancel₀ nonzero]

lemma Factorization.Factors.isDirection_column {f : Factorization ℝ} {inputs : List (Vec ℝ)}
    (F : f.Factors n inputs) {j : ℕ} (below : j < f.size) : IsDirection n (f.column j) := by
  have length := F.length_column below
  refine ⟨length, ?_⟩
  have square : ‖toSpace n (f.column j)‖ ^ 2 = 1 := by
    rw [← real_inner_self_eq_norm_sq]
    exact (F.inner_columnPoint below below).trans (if_pos rfl)
  rw [← norm_toSpace length]
  exact (pow_eq_one_iff_of_nonneg (by positivity) two_ne_zero).mp square

namespace Cycle

/-- The invariant of a cycle with room for `m` steps on vectors of length `n`, for an operator that
may fail. -/
structure Directed (n m : ℕ) (ws : Workspace ℝ) (p : Progress ℝ) : Prop where
  fits : Fits n ws
  capacity : ws.capacity = m
  factors : ∃ inputs, ws.factorization.Factors n inputs
  residual : ∃ r : Vec ℝ, r.length = n ∧ p.residual = Tensor.ofVec r ∧ p.norm = Vec.norm r
  column : ∀ q ∈ p.column, IsDirection n q

variable {op op' : Operator ℝ} {threshold tolerance : Setting ℝ} {ws : Workspace ℝ} {p : Progress ℝ}

lemma directed_start (room : m ≤ n) {r : Vec ℝ} (length : r.length = n) :
    Directed n m (.empty n m) ⟨Tensor.ofVec r, Vec.norm r, Vec.norm r, none⟩ :=
  ⟨fits_empty room, rfl, ⟨[], Factorization.factors_empty n m⟩, ⟨r, length, rfl, rfl⟩, nofun⟩

namespace Directed

/-- The next direction is a unit vector, from whichever source it comes. -/
lemma isDirection (directed : Directed n m ws p) (nonzero : p.norm ≠ 0) {choice : DirectionSource}
    {z : Tensor ℝ} (next : nextDirection threshold p = .ok (choice, z)) :
    ∃ v : Vec ℝ, IsDirection n v ∧ z = Tensor.ofVec v := by
  obtain ⟨r, length, residual, norm⟩ := directed.residual
  have of_source {q : Vec ℝ} (source : DirectionSource)
      (unit : source = .column → IsDirection n q) :
      ∃ v : Vec ℝ, IsDirection n v ∧
        source.direction p.residual p.norm (Tensor.ofVec q) = Tensor.ofVec v := by
    cases source with
    | residual =>
      refine ⟨divBy r (Vec.norm r), isDirection_divBy length (norm ▸ nonzero), ?_⟩
      rw [DirectionSource.direction, residual, norm, Tensor.map_ofVec]
      rfl
    | column => exact ⟨q, unit rfl, rfl⟩
  unfold nextDirection at next
  -- The first direction is always the residual. Later ones are it or the last column, for every
  -- threshold.
  cases column : p.column with
  | none =>
    rw [column] at next
    cases next
    have normalized := of_source (q := r) .residual (by simp)
    rwa [residual] at normalized ⊢
  | some q =>
    rw [column] at next
    obtain ⟨ν, -, next⟩ := bind_eq_ok.mp next
    cases next
    exact of_source _ fun _ => directed.column q column

/-- A step that goes through keeps the invariant. -/
lemma step_leads (directed : Directed n m ws p) (vectors : MapsVectors n op)
    (nonzero : p.norm ≠ 0) :
    Leads (step op threshold p) ws (fun p' ws' => Directed n m ws' p') fun _ => True := by
  obtain ⟨r, length, residual, -⟩ := directed.residual
  obtain ⟨inputs, factors⟩ := directed.factors
  have dimension := directed.fits.dimension
  unfold step
  refine .lift_bind trivial fun ⟨choice, z⟩ next => ?_
  obtain ⟨v, unit, rfl⟩ := directed.isDirection nonzero next
  rw [leads_bind, leads_get]
  refine .ok_bind (Tensor.fill_ofVec (unit.length.trans dimension.symm)) ?_
  rw [leads_bind, leads_set]
  -- From here on the operator may fail, or the arena may be full. Then nothing is left to show.
  refine .lift_bind trivial fun image applied => ?_
  obtain ⟨w, hw, rfl⟩ := vectors v image unit.length applied
  refine .lift_bind trivial fun f extended => ?_
  obtain ⟨room, -, pushed⟩ := (Factorization.extend_eq_ok_iff _ _ _).mp extended
  obtain rfl : f = ws.factorization.push w := pushed
  have below : ws.factorization.size < ws.capacity := directed.fits.capacity ▸ room
  have count : (ws.factorization.push w).size - 1 = ws.factorization.size := by
    rw [Factorization.size_push, Nat.add_sub_cancel]
  have pushed := factors.push (below.trans_le directed.fits.capacity_le) hw
  -- The image may be zero or depend on the earlier ones: its column is a unit vector all the same.
  have unit_column : IsDirection n ((ws.factorization.push w).column ws.factorization.size) :=
    pushed.isDirection_column (by rw [Factorization.size_push]; exact Nat.lt_succ_self _)
  have hq := unit_column.length
  rw [leads_bind, leads_modify]
  dsimp only
  rw [count, residual]
  refine .ok_bind (Tensor.product_ofVec (hq.trans length.symm)) ?_
  refine .ok_bind (Tensor.number_ofScalar _) ?_
  rw [leads_bind, leads_modify]
  refine .ok_bind (Tensor.combine_ofVec _ (by rw [length_smul, hq, length])) ?_
  refine ⟨directed.fits.spaceAfter below choice unit.length hw r, directed.capacity, ⟨_, pushed⟩,
    ⟨_, ?_, rfl, rfl⟩, ?_⟩
  · rw [List.length_zipWith, length_smul, hq, length, min_self]
  · rintro _ ⟨rfl⟩
    exact unit_column

/-- Operators that agree on directions have the same steps. -/
lemma step_agree (directed : Directed n m ws p) (agree : AgreeOnDirections n op op')
    (nonzero : p.norm ≠ 0) : Agree (step op threshold p) (step op' threshold p) id ws := by
  unfold step
  refine .lift_bind fun ⟨choice, z⟩ next => ?_
  obtain ⟨v, unit, rfl⟩ := directed.isDirection nonzero next
  simp only [agree v unit]
  exact .refl _ _

/-- The loop keeps the invariant. -/
lemma iterate_leads (vectors : MapsVectors n op) {N : ℕ} (directed : Directed n m ws p)
    (nonzero : p.norm ≠ 0) :
    Leads (iterate op threshold tolerance N p) ws (fun result ws' => Directed n m ws' result.1)
      fun _ => True := by
  induction N generalizing ws p with
  | zero => exact directed
  | succ N ih =>
    rw [iterate]
    refine (directed.step_leads vectors nonzero).bind fun p' ws' next => ?_
    refine .lift_bind trivial fun τ _ => ?_
    split_ifs with done
    · exact next
    · have goes_on : p'.norm ≠ 0 := fun zero => done (.inr (beq_iff_eq.mpr zero))
      exact (ih next goes_on).bind fun _ _ last => last

/-- Operators that agree on directions have the same loops. -/
lemma iterate_agree (vectors : MapsVectors n op) (agree : AgreeOnDirections n op op') {N : ℕ}
    (directed : Directed n m ws p) (nonzero : p.norm ≠ 0) :
    Agree (iterate op threshold tolerance N p) (iterate op' threshold tolerance N p) id ws := by
  induction N generalizing ws p with
  | zero => exact .refl _ _
  | succ N ih =>
    rw [iterate, iterate]
    refine (directed.step_agree agree nonzero).bind fun p' ws' run => ?_
    have next : Directed n m ws' p' := (directed.step_leads vectors nonzero).result run
    refine .lift_bind fun τ _ => ?_
    split_ifs with done
    · exact .refl _ _
    · have goes_on : p'.norm ≠ 0 := fun zero => done (.inr (beq_iff_eq.mpr zero))
      exact (ih next goes_on).bind fun _ _ _ => .refl _ _

end Directed

/-- What a cycle hands on to the next one. -/
structure HandsOn (n m : ℕ) (out : Outcome ℝ) (ws : Workspace ℝ) : Prop where
  residual : ∃ r : Vec ℝ, r.length = n ∧ out.residual = Tensor.ofVec r ∧ out.norm = Vec.norm r
  reset : ws.reset = .empty n m

section Run

variable {used : Workspace ℝ} {r : Vec ℝ} (threshold tolerance : Setting ℝ) (maxSteps : ℤ)

/-- A cycle that goes through from a vector of length `n` hands on such a vector. -/
theorem run_leads (vectors : MapsVectors n op) (room : m ≤ n) (empty : used.reset = .empty n m)
    (length : r.length = n) :
    Leads (run op (Tensor.ofVec r) (Vec.norm r) threshold tolerance maxSteps) used (HandsOn n m)
      fun _ => True := by
  unfold run
  rw [leads_bind, leads_modify, leads_bind, leads_get, empty]
  extract_lets steps
  split_ifs with zero none
  · exact ⟨⟨r, length, rfl, (beq_iff_eq.mp zero).symm⟩, rfl⟩
  · exact ⟨⟨r, length, rfl, rfl⟩, rfl⟩
  · have nonzero : Vec.norm r ≠ 0 := by simpa using zero
    refine ((directed_start room length).iterate_leads vectors nonzero).bind ?_
    rintro ⟨last, norms⟩ ws directed
    rw [leads_bind, leads_get]
    refine .lift_bind trivial fun y _ => ?_
    refine ⟨directed.residual, ?_⟩
    rw [Workspace.reset, directed.fits.dimension, directed.capacity]

/-- Operators that agree on directions have the same cycles. -/
theorem run_agree (vectors : MapsVectors n op) (agree : AgreeOnDirections n op op') (room : m ≤ n)
    (empty : used.reset = .empty n m) (length : r.length = n) :
    Agree (run op (Tensor.ofVec r) (Vec.norm r) threshold tolerance maxSteps)
      (run op' (Tensor.ofVec r) (Vec.norm r) threshold tolerance maxSteps) id used := by
  unfold run
  refine Agree.bind (.modify rfl) ?_
  rintro - _ ⟨rfl⟩
  rw [empty]
  refine .get_bind ?_
  rw [id_eq]
  extract_lets steps
  split_ifs with zero none
  · exact .refl _ _
  · exact .refl _ _
  · have nonzero : Vec.norm r ≠ 0 := by simpa using zero
    exact ((directed_start room length).iterate_agree vectors agree nonzero).bind
      fun _ _ _ => .refl _ _

end Run

end Cycle

end NewtonKrylov
