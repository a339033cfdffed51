import NewtonKrylov.Proofs.Krylov.Run
import NewtonKrylov.Proofs.Operator
import NewtonKrylov.Proofs.Triangular

/-!
# The projected residual

In exact arithmetic every step of a cycle takes from the residual its component along one more
column of the orthogonal factor. `Projected` is the invariant of a cycle for an operator of any
kind, linear or not: the coefficients are the components of the first residual, the factorization
holds the factors of the images of the directions, and the residual that is carried along is what
remains of the first one.

`run_finished` puts the steps together: a cycle goes through, and `Finished` says how it ends.
-/

namespace NewtonKrylov

open Vec
open scoped InnerProductSpace

variable {n : ℕ}

namespace Workspace

/-- Direction `j`, as a point. -/
noncomputable def direction (n : ℕ) (ws : Workspace ℝ) (j : ℕ) : Space n :=
  toSpace n (ws.directions.getD j [])

/-- Column `j` of the orthogonal factor, as a point. -/
noncomputable def column (n : ℕ) (ws : Workspace ℝ) (j : ℕ) : Space n :=
  ws.factorization.columnPoint n j

/-- What is left of a residual without its components along the first `k` columns. -/
noncomputable def remainder (n : ℕ) (ws : Workspace ℝ) (r₀ : Space n) (k : ℕ) : Space n :=
  r₀ - combination n (ws.coefficients.getD · 0) (ws.column n) k

@[simp] lemma remainder_zero (ws : Workspace ℝ) (r₀ : Space n) : ws.remainder n r₀ 0 = r₀ := by
  simp [remainder, combination]

lemma remainder_succ (ws : Workspace ℝ) (r₀ : Space n) (k : ℕ) :
    ws.remainder n r₀ (k + 1)
      = ws.remainder n r₀ k - ws.coefficients.getD k 0 • ws.column n k := by
  rw [remainder, remainder, combination_succ]
  module

end Workspace

namespace Cycle

variable {F : Space n → Space n} {r₀ : Space n} {ws : Workspace ℝ} {p : Progress ℝ}
  {norms : List ℝ}

/-- The invariant of a cycle from the residual `r₀` with an operator that acts as `F`. -/
structure Projected (F : Space n → Space n) (r₀ : Space n) (ws : Workspace ℝ) (p : Progress ℝ)
    (norms : List ℝ) : Prop where
  fits : Fits n ws
  factors : ws.factorization.Factors n (ws.directions.map fun z => ofSpace (F (toSpace n z)))
  coefficient : ∀ i < ws.factorization.size,
    ws.coefficients.getD i 0 = ⟪ws.column n i, r₀⟫_ℝ
  residual : p.residual = Tensor.ofVec (ofSpace (ws.remainder n r₀ ws.factorization.size))
  norm : p.norm = ‖ws.remainder n r₀ ws.factorization.size‖
  previous : p.previousNorm = ‖ws.remainder n r₀ (ws.factorization.size - 1)‖
  last : p.column = if ws.factorization.size = 0 then none
    else some (ws.factorization.column (ws.factorization.size - 1))
  norms : norms = (List.range ws.factorization.size).map fun j => ‖ws.remainder n r₀ (j + 1)‖

/-- At the start there is nothing in the work space, and all of the residual is left. -/
lemma projected_start {capacity : ℕ} (fits : capacity ≤ n) (F : Space n → Space n) (r₀ : Space n) :
    Projected F r₀ (.empty n capacity) ⟨Tensor.ofVec (ofSpace r₀), ‖r₀‖, ‖r₀‖, none⟩ [] where
  fits := fits_empty fits
  factors := Factorization.factors_empty n capacity
  coefficient := by simp [Workspace.empty]
  residual := by simp [Workspace.empty]
  norm := by simp [Workspace.empty]
  previous := by simp [Workspace.empty]
  last := rfl
  norms := rfl

namespace Projected

lemma inner_column (P : Projected F r₀ ws p norms) {i j : ℕ} (hi : i < ws.factorization.size)
    (hj : j < ws.factorization.size) :
    ⟪ws.column n i, ws.column n j⟫_ℝ = if i = j then 1 else 0 :=
  P.factors.inner_columnPoint hi hj

/-- What is left of the residual after `k` steps is orthogonal to the first `k` columns. -/
theorem inner_column_remainder (P : Projected F r₀ ws p norms) {i k : ℕ} (below : i < k)
    (atMost : k ≤ ws.factorization.size) : ⟪ws.column n i, ws.remainder n r₀ k⟫_ℝ = 0 := by
  have component : ⟪ws.column n i, combination n (ws.coefficients.getD · 0) (ws.column n) k⟫_ℝ
      = ws.coefficients.getD i 0 := by
    rw [combination, inner_sum, Finset.sum_eq_single_of_mem i (Finset.mem_range.mpr below)]
    · rw [real_inner_smul_right, P.inner_column (by omega) (by omega), if_pos rfl, mul_one]
    · intro j member other
      have inside := Finset.mem_range.mp member
      rw [real_inner_smul_right, P.inner_column (by omega) (by omega), if_neg other.symm, mul_zero]
  rw [Workspace.remainder, inner_sub_right, component, P.coefficient i (by omega), sub_self]

end Projected

/-! ### One step more -/

section After

variable {choice : DirectionSource} {z w r : Vec ℝ}

lemma size_spaceAfter :
    (spaceAfter ws choice z w r).factorization.size = ws.factorization.size + 1 :=
  Factorization.size_push _ _

/-- A step leaves the columns before it as they are. -/
lemma column_spaceAfter {i : ℕ} (below : i < ws.factorization.size) :
    (spaceAfter ws choice z w r).column n i = ws.column n i := by
  exact congrArg (toSpace n) (ws.factorization.column_push w below)

lemma coefficient_spaceAfter (fits : Fits n ws) {i : ℕ} (below : i < ws.factorization.size) :
    (spaceAfter ws choice z w r).coefficients.getD i 0 = ws.coefficients.getD i 0 :=
  List.getD_append _ _ _ _ (by rw [fits.coefficients]; exact below)

lemma coefficient_spaceAfter_last (fits : Fits n ws) :
    (spaceAfter ws choice z w r).coefficients.getD ws.factorization.size 0
      = dot (newColumn ws w) r := by
  rw [spaceAfter, List.getD_append_right _ _ _ _ (by rw [fits.coefficients]), fits.coefficients,
    Nat.sub_self, List.getD_cons_zero]

lemma direction_spaceAfter (fits : Fits n ws) {j : ℕ} (below : j < ws.factorization.size) :
    (spaceAfter ws choice z w r).direction n j = ws.direction n j := by
  have count := fits.length_directions
  have added : (spaceAfter ws choice z w r).directions = ws.directions ++ [z] :=
    Workspace.directions_record ws choice z
  rw [Workspace.direction, Workspace.direction, added, List.getD_append _ _ _ _ (by omega)]

lemma direction_spaceAfter_last (fits : Fits n ws) :
    (spaceAfter ws choice z w r).direction n ws.factorization.size = toSpace n z := by
  have count := fits.length_directions
  have added : (spaceAfter ws choice z w r).directions = ws.directions ++ [z] :=
    Workspace.directions_record ws choice z
  rw [Workspace.direction, added, List.getD_append_right _ _ _ _ (by omega), count, Nat.sub_self,
    List.getD_cons_zero]

/-- What was left of the residual before a step can still be told after it. -/
lemma remainder_spaceAfter (fits : Fits n ws) (r₀ : Space n) {k : ℕ}
    (atMost : k ≤ ws.factorization.size) :
    (spaceAfter ws choice z w r).remainder n r₀ k = ws.remainder n r₀ k := by
  rw [Workspace.remainder, Workspace.remainder]
  congr 1
  apply combination_congr
  · intro j below
    exact coefficient_spaceAfter fits (by omega)
  · intro j below
    exact column_spaceAfter (by omega)

end After

namespace Projected

/-- The residual before the next step, as a vector. -/
noncomputable def current (n : ℕ) (ws : Workspace ℝ) (r₀ : Space n) : Vec ℝ :=
  ofSpace (ws.remainder n r₀ ws.factorization.size)

lemma length_chosen (P : Projected F r₀ ws p norms) (ν : ℝ) :
    (chosen ν p (current n ws r₀)).2.length = n := by
  apply Cycle.length_chosen (length_ofSpace _)
  intro q column
  rw [P.last] at column
  split_ifs at column with empty
  · cases column
  · cases column
    exact P.factors.length_column (by omega)

section New

variable {choice : DirectionSource} {z w : Vec ℝ}

/-- The new column is orthogonal to the columns before it. -/
lemma inner_newColumn_column (P : Projected F r₀ ws p norms)
    (room : ws.factorization.size < ws.capacity) (hw : w.length = n) {j : ℕ}
    (below : j < ws.factorization.size) :
    ⟪toSpace n (newColumn ws w), ws.column n j⟫_ℝ = 0 := by
  have fits := P.fits.capacity_le
  have count := Factorization.size_push ws.factorization w
  have product := (P.factors.push (by omega) hw).inner_columnPoint
    (i := ws.factorization.size) (j := j) (by omega) (by omega)
  have same : (spaceAfter ws .residual [] w []).column n j = ws.column n j :=
    column_spaceAfter below
  change (ws.factorization.push w).columnPoint n j = ws.column n j at same
  rwa [if_neg (by omega), same] at product

/-- The component of what is left along the new column is that of the first residual. -/
lemma dot_newColumn (P : Projected F r₀ ws p norms) (room : ws.factorization.size < ws.capacity)
    (hw : w.length = n) :
    dot (newColumn ws w) (current n ws r₀) = ⟪toSpace n (newColumn ws w), r₀⟫_ℝ := by
  have orthogonal : ⟪toSpace n (newColumn ws w),
      combination n (ws.coefficients.getD · 0) (ws.column n) ws.factorization.size⟫_ℝ = 0 := by
    rw [combination, inner_sum]
    apply Finset.sum_eq_zero
    intro j member
    rw [real_inner_smul_right, P.inner_newColumn_column room hw (Finset.mem_range.mp member),
      mul_zero]
  rw [current, ← inner_toSpace (P.fits.length_newColumn room hw) (length_ofSpace _),
    toSpace_ofSpace, Workspace.remainder, inner_sub_right, orthogonal, sub_zero]

/-- What a step hands on is what is left of the first residual after it. -/
lemma sub_newColumn (P : Projected F r₀ ws p norms) (room : ws.factorization.size < ws.capacity)
    (hw : w.length = n) :
    sub (current n ws r₀) (smul (dot (newColumn ws w) (current n ws r₀)) (newColumn ws w))
      = ofSpace ((spaceAfter ws choice z w (current n ws r₀)).remainder n r₀
          (ws.factorization.size + 1)) := by
  rw [Workspace.remainder_succ, remainder_spaceAfter P.fits r₀ le_rfl,
    coefficient_spaceAfter_last P.fits, ofSpace_sub, ofSpace_smul]
  congr 2
  exact (ofSpace_toSpace (P.fits.length_newColumn room hw)).symm

end New

/-- A step from the invariant goes through if the operator does on the direction, and keeps it. -/
theorem step_of_image {op : Operator ℝ} (P : Projected F r₀ ws p norms) (ν : ℝ)
    (room : ws.factorization.size < ws.capacity)
    (image : op (Tensor.ofVec (chosen ν p (current n ws r₀)).2)
      = .ok (Tensor.ofVec (ofSpace (F (toSpace n (chosen ν p (current n ws r₀)).2))))) :
    let r := current n ws r₀
    let z := (chosen ν p r).2
    let w := ofSpace (F (toSpace n z))
    let next := progressAfter p.norm (newColumn ws w) r
    (Cycle.step op (.ok ν) p).run ws = (.ok next, spaceAfter ws (chosen ν p r).1 z w r) ∧
      Projected F r₀ (spaceAfter ws (chosen ν p r).1 z w r) next (norms ++ [next.norm]) := by
  intro r z w next
  have hz : z.length = n := P.length_chosen ν
  have hw : w.length = n := length_ofSpace _
  have hq : (newColumn ws w).length = n := P.fits.length_newColumn room hw
  have below := P.fits.capacity_le
  constructor
  · exact step_run P.residual (by rw [P.fits.dimension]; exact length_ofSpace _)
      (by rw [hz, P.fits.dimension]) image (by rw [hw, P.fits.rows])
      (by rw [P.fits.capacity]; exact room) (by rw [hq, P.fits.dimension])
  have size : (spaceAfter ws (chosen ν p r).1 z w r).factorization.size
      = ws.factorization.size + 1 := size_spaceAfter
  have added : (spaceAfter ws (chosen ν p r).1 z w r).directions = ws.directions ++ [z] :=
    Workspace.directions_record ws _ z
  have left : sub r (smul (dot (newColumn ws w) r) (newColumn ws w))
      = ofSpace ((spaceAfter ws (chosen ν p r).1 z w r).remainder n r₀
          (ws.factorization.size + 1)) := P.sub_newColumn room hw
  have norm : next.norm = ‖(spaceAfter ws (chosen ν p r).1 z w r).remainder n r₀
      (ws.factorization.size + 1)‖ := by
    rw [← norm_ofSpace, ← left]
    rfl
  refine ⟨P.fits.spaceAfter room _ hz hw r, ?_, ?_, ?_, ?_, ?_, ?_, ?_⟩
  · rw [added, List.map_append]
    exact P.factors.push (by omega) hw
  · intro i inside
    -- The steps before this one are read off the invariant. Only the last coefficient is new.
    rcases Nat.lt_succ_iff_lt_or_eq.mp (size ▸ inside) with old | new
    · rw [coefficient_spaceAfter P.fits old, column_spaceAfter old, P.coefficient i old]
    · rw [new, coefficient_spaceAfter_last P.fits, P.dot_newColumn room hw]
      rfl
  · rw [size]
    exact congrArg Tensor.ofVec left
  · rw [size]
    exact norm
  · rw [size, Nat.add_sub_cancel, remainder_spaceAfter P.fits r₀ le_rfl]
    exact P.norm
  · rw [size, Nat.add_sub_cancel, if_neg (Nat.succ_ne_zero _)]
    rfl
  · rw [size, List.range_succ, List.map_append, P.norms, List.map_singleton, ← norm]
    congr 1
    apply List.map_congr_left
    intro j member
    rw [remainder_spaceAfter P.fits r₀ (List.mem_range.mp member)]

/-- For an operator that acts as a function, every step goes through. -/
theorem step {op : Operator ℝ} (acts : ActsAs op F) (P : Projected F r₀ ws p norms) (ν : ℝ)
    (room : ws.factorization.size < ws.capacity) :
    let r := current n ws r₀
    let z := (chosen ν p r).2
    let w := ofSpace (F (toSpace n z))
    let next := progressAfter p.norm (newColumn ws w) r
    (Cycle.step op (.ok ν) p).run ws = (.ok next, spaceAfter ws (chosen ν p r).1 z w r) ∧
      Projected F r₀ (spaceAfter ws (chosen ν p r).1 z w r) next (norms ++ [next.norm]) :=
  P.step_of_image ν room (acts.apply (P.length_chosen ν))

end Projected

/-! ### The end of a cycle -/

/-- The coefficients of the directions in the update. -/
noncomputable def solution (ws : Workspace ℝ) : Vec ℝ :=
  Triangular.backSubstitute (Triangular.fromDiagonal ws.factorization.triangular) ws.coefficients

lemma Projected.length_norms (P : Projected F r₀ ws p norms) :
    norms.length = ws.factorization.size := by
  rw [P.norms, List.length_map, List.length_range]

lemma Projected.solves_solution (P : Projected F r₀ ws p norms) :
    Triangular.Solves ws.factorization.size ws.factorization.triangular ws.coefficients
      (solution ws) :=
  Triangular.solves_backSubstitute P.factors.hasShape_triangular P.fits.coefficients

/-- How a cycle ends that has taken steps. -/
structure Finished (F : Space n → Space n) (r₀ : Space n) (tolerance : ℝ) (limit : ℕ)
    (ws : Workspace ℝ) (p : Progress ℝ) (out : Outcome ℝ) : Prop where
  projected : Projected F r₀ ws p out.history
  update : out.update
    = ofSpace (combination n ((solution ws).getD · 0) (ws.direction n) ws.factorization.size)
  residual : out.residual = Tensor.ofVec (ofSpace (ws.remainder n r₀ ws.factorization.size))
  norm : out.norm = ‖ws.remainder n r₀ ws.factorization.size‖
  steps : out.steps = ws.factorization.size
  positive : 0 < ws.factorization.size
  atMost : ws.factorization.size ≤ limit
  reason : ws.factorization.size = limit ∨ out.norm < tolerance ∨ out.norm = 0
  earlier : ∀ c ∈ out.history.dropLast, ¬ (c < tolerance ∨ c = 0)

/-- A cycle from a residual other than zero, with room for a step, goes through. Beside the
invariant, it keeps any property that a step keeps. -/
theorem run_finished {op : Operator ℝ} (acts : ActsAs op F) {capacity : ℕ} (fits : capacity ≤ n)
    {used : Workspace ℝ} (empty : used.reset = .empty n capacity) (nonzero : r₀ ≠ 0)
    {ν tolerance : ℝ} {maxSteps : Int} (positive : (min maxSteps capacity).toNat ≠ 0)
    (Q : Workspace ℝ → Progress ℝ → Prop)
    (start : Q (.empty n capacity) ⟨Tensor.ofVec (ofSpace r₀), ‖r₀‖, ‖r₀‖, none⟩)
    (advance : ∀ ws p norms, Projected F r₀ ws p norms → Q ws p →
      ws.remainder n r₀ ws.factorization.size ≠ 0 → ws.factorization.size < ws.capacity →
      let r := Projected.current n ws r₀
      let z := (chosen ν p r).2
      let w := ofSpace (F (toSpace n z))
      Q (spaceAfter ws (chosen ν p r).1 z w r) (progressAfter p.norm (newColumn ws w) r)) :
    ∃ ws p out,
      (run op (Tensor.ofVec (ofSpace r₀)) ‖r₀‖ (.ok ν) (.ok tolerance) maxSteps).run used
        = (.ok out, ws) ∧ ws.reset = .empty n capacity ∧
      Finished F r₀ tolerance (min maxSteps capacity).toNat ws p out ∧ Q ws p := by
  have capacity_eq : used.capacity = capacity := congrArg Workspace.capacity empty
  have norm_nonzero : (‖r₀‖ == 0) = false := by simpa using nonzero
  -- The invariant of the loop. `Q` and the capacity are carried along, because `advance` may need
  -- both.
  have goes_through : ∀ ws p norms,
      Projected F r₀ ws p norms ∧ Q ws p ∧ ws.capacity = capacity → (p.norm == 0) = false →
      norms.length < capacity → ∃ ws' p', (step op (.ok ν) p).run ws = (.ok p', ws') ∧
        Projected F r₀ ws' p' (norms ++ [p'.norm]) ∧ Q ws' p' ∧ ws'.capacity = capacity := by
    rintro ws p norms ⟨P, kept, room⟩ goes_on below
    have count := P.length_norms
    obtain ⟨run, next⟩ := P.step acts ν (by omega)
    have left : ws.remainder n r₀ ws.factorization.size ≠ 0 := by
      intro zero
      rw [P.norm, zero] at goes_on
      simp at goes_on
    exact ⟨_, _, run, next, advance ws p norms P kept left (by omega), room⟩
  obtain ⟨ws, p, norms, loop_run, ⟨P, kept, same⟩, some_step, atMost, _, reason, earlier⟩ :=
    iterate_run goes_through ⟨projected_start fits F r₀, start, rfl⟩ norm_nonzero
      (show 0 < (min maxSteps capacity).toNat by omega) (by simp)
  rw [List.nil_append] at P
  have count := P.length_norms
  have shape := P.factors.hasShape_triangular
  have sides := P.fits.coefficients
  have solved : Triangular.leastSquares ws.factorization.triangular ws.coefficients
      = .ok (solution ws) := Triangular.leastSquares_eq_ok (by omega) shape sides
  have unknowns := P.solves_solution.length
  rw [← empty] at loop_run
  subst capacity_eq
  refine ⟨ws, p, _, run_eq_ok norm_nonzero positive loop_run solved, ?_, ?_, kept⟩
  · rw [Workspace.reset, P.fits.dimension, same]
  have directions := P.fits.length_directions
  refine ⟨P, ?_, P.residual, P.norm, count, by omega, by omega, ?_, ?_⟩
  · -- The update in the work space is a sum of vectors, the combination one of points.
    have point := toSpace_linearCombination (solution ws) (unknowns.trans directions.symm)
      P.fits.directions
    have length := length_linearCombination (solution ws) P.fits.directions
    rw [directions] at point
    rw [P.fits.dimension, ← ofSpace_toSpace length, point]
    rfl
  · simpa [count, beq_iff_eq] using reason
  · simpa [beq_iff_eq] using earlier

/-- A cycle from a residual other than zero, with room for a step, goes through. -/
theorem run_ends {op : Operator ℝ} (acts : ActsAs op F) {capacity : ℕ} (fits : capacity ≤ n)
    {used : Workspace ℝ} (empty : used.reset = .empty n capacity) (nonzero : r₀ ≠ 0)
    (ν tolerance : ℝ) {maxSteps : Int} (positive : (min maxSteps capacity).toNat ≠ 0) :
    ∃ ws p out,
      (run op (Tensor.ofVec (ofSpace r₀)) ‖r₀‖ (.ok ν) (.ok tolerance) maxSteps).run used
        = (.ok out, ws) ∧ ws.reset = .empty n capacity ∧
      Finished F r₀ tolerance (min maxSteps capacity).toNat ws p out := by
  obtain ⟨ws, p, out, run, reset, E, -⟩ := run_finished acts fits empty nonzero positive
    (fun _ _ => True) trivial fun _ _ _ _ _ _ _ => trivial
  exact ⟨ws, p, out, run, reset, E⟩

end Cycle

end NewtonKrylov
