import NewtonKrylov.Proofs.LeastSquares
import NewtonKrylov.Proofs.Space

/-!
# Back substitution in exact arithmetic

Back substitution satisfies every equation that has a pivot, and leaves at zero the unknown of an
equation that has none. Measuring each unknown in units of its pivot gives the same vector. So the
least-squares problem has one solution, whichever way the condition of the matrix decides.

The proofs follow the recursion over the rows. Row `i` of what is left of a matrix is row `m + i` of
the matrix, when `m` rows are done.
-/

namespace NewtonKrylov

namespace Triangular

open Vec

/-- The vector satisfies the equations with a pivot, and is zero at the others. -/
structure Solves (k : ℕ) (R : Rows ℝ) (b y : Vec ℝ) : Prop where
  length : y.length = k
  equation : ∀ i < k, R.entry i i ≠ 0 →
    ∑ j ∈ Finset.Ico i k, R.entry i j * y.getD j 0 = b.getD i 0
  unused : ∀ i < k, R.entry i i = 0 → y.getD i 0 = 0

/-! ### Rows that are left -/

/-- The rows from the diagonal on, when `m` rows are done. -/
def fromPlace {α : Type} (m : ℕ) (R : Rows α) : Rows α :=
  (R.zipIdx m).map fun (row, i) => row.drop i

/-- These are the last rows of a square matrix, of which `m` are done, with their right hand
sides. -/
structure Remaining (m : ℕ) (R : Rows ℝ) (b : Vec ℝ) : Prop where
  count : b.length = R.length
  lengths : ∀ row ∈ R, row.length = m + R.length

lemma Remaining.tail {m : ℕ} {row : Vec ℝ} {R : Rows ℝ} {a : ℝ} {b : Vec ℝ}
    (rest : Remaining m (row :: R) (a :: b)) : Remaining (m + 1) R b := by
  refine ⟨by simpa using rest.count, ?_⟩
  intro r member
  rw [rest.lengths r (List.mem_cons_of_mem row member), List.length_cons]
  omega

lemma Remaining.length_row {m : ℕ} {row : Vec ℝ} {R : Rows ℝ} {b : Vec ℝ}
    (rest : Remaining m (row :: R) b) : row.length = m + 1 + R.length := by
  rw [rest.lengths row List.mem_cons_self, List.length_cons]
  omega

/-- Back substitution solves the first equation that is left with the unknowns of the others. -/
lemma backSubstitute_cons {m : ℕ} {row : Vec ℝ} {R : Rows ℝ} {a : ℝ} {b : Vec ℝ}
    (below : m < row.length) :
    backSubstitute (fromPlace m (row :: R)) (a :: b)
      = (if row.getD m 0 = 0 then 0
          else (a - dot (row.drop (m + 1)) (backSubstitute (fromPlace (m + 1) R) b))
            / row.getD m 0)
        :: backSubstitute (fromPlace (m + 1) R) b := by
  have split : row.drop m = row.getD m 0 :: row.drop (m + 1) := by
    rw [List.drop_eq_getElem_cons below, List.getD_eq_getElem _ _ below]
  simp only [fromPlace, List.zipIdx_cons, List.map_cons, split, backSubstitute, beq_iff_eq]

lemma length_backSubstitute {m : ℕ} {R : Rows ℝ} {b : Vec ℝ} (rest : Remaining m R b) :
    (backSubstitute (fromPlace m R) b).length = R.length := by
  induction R generalizing m b with
  | nil => simp [fromPlace, backSubstitute]
  | cons row R ih =>
    cases b with
    | nil => simpa using rest.count
    | cons a b =>
      have length := rest.length_row
      rw [backSubstitute_cons (by omega), List.length_cons, ih rest.tail, List.length_cons]

/-- What back substitution computes for the rows that are left. -/
lemma backSubstitute_spec {m : ℕ} {R : Rows ℝ} {b : Vec ℝ} (rest : Remaining m R b) {i : ℕ}
    (below : i < R.length) :
    (R.entry i (m + i) ≠ 0 →
      ∑ j ∈ Finset.range (R.length - i),
        R.entry i (m + i + j) * (backSubstitute (fromPlace m R) b).getD (i + j) 0 = b.getD i 0) ∧
    (R.entry i (m + i) = 0 → (backSubstitute (fromPlace m R) b).getD i 0 = 0) := by
  -- By induction on the rows, from the first on. The first unknown is found last, from those of the
  -- others.
  induction R generalizing m b i with
  | nil => simp at below
  | cons row R ih =>
    cases b with
    | nil => simpa using rest.count
    | cons a b =>
      have length := rest.length_row
      rw [backSubstitute_cons (by omega)]
      have unknowns := length_backSubstitute rest.tail
      have others := fun i (inside : i < R.length) => ih rest.tail inside
      generalize backSubstitute (fromPlace (m + 1) R) b = x at unknowns others ⊢
      cases i with
      | zero =>
        have known : dot (row.drop (m + 1)) x
            = ∑ j ∈ Finset.range R.length, row.getD (m + (j + 1)) 0 * x.getD j 0 := by
          rw [dot_eq_sum (by simp [unknowns, length]), unknowns]
          simp [List.getD, List.getElem?_drop, Nat.add_right_comm m, Nat.add_assoc]
        simp only [Rows.entry, List.getD_cons_zero, Nat.add_zero, Nat.sub_zero, List.length_cons]
        constructor
        · intro pivot
          rw [Finset.sum_range_succ', if_neg pivot, known]
          simp only [Nat.zero_add, List.getD_cons_succ, List.getD_cons_zero, Nat.add_zero]
          field_simp
          ring
        · intro zero
          exact if_pos zero
      | succ i =>
        have step := others i (by simpa using below)
        simp only [Rows.entry, List.getD_cons_succ, List.length_cons, Nat.add_sub_add_right,
          show m + (i + 1) = m + 1 + i by omega] at step ⊢
        simpa only [Nat.succ_add, List.getD_cons_succ] using step

/-! ### Whole matrices -/

variable {k : ℕ} {R : Rows ℝ} {b : Vec ℝ}

lemma remaining_of_hasShape (shape : R.HasShape k k) (count : b.length = k) :
    Remaining 0 R b := by
  refine ⟨count.trans shape.1.symm, ?_⟩
  intro row member
  rw [shape.2 row member, shape.1, Nat.zero_add]

/-- Back substitution solves the triangular system. -/
theorem solves_backSubstitute (shape : R.HasShape k k) (count : b.length = k) :
    Solves k R b (backSubstitute (fromDiagonal R) b) := by
  have rest := remaining_of_hasShape shape count
  have spec (i : ℕ) (below : i < k) := backSubstitute_spec rest (shape.1.symm ▸ below)
  simp only [Nat.zero_add, shape.1] at spec
  refine ⟨(length_backSubstitute rest).trans shape.1, ?_, fun i below => (spec i below).2⟩
  intro i below pivot
  rw [Finset.sum_Ico_eq_sum_range]
  exact (spec i below).1 pivot

lemma width_eq (shape : R.HasShape k k) : R.width = k := by
  cases R with
  | nil => exact shape.1
  | cons row rows => exact shape.2 row List.mem_cons_self

/-- A square matrix accepts every right hand side of its size. -/
lemma solve_eq_ok (shape : R.HasShape k k) (count : b.length = k) :
    solve R b = .ok (backSubstitute (fromDiagonal R) b) := by
  simp [solve, count, shape.1, width_eq shape]

/-- The diagonal of a square matrix. -/
lemma diagonal_eq (shape : R.HasShape k k) :
    R.diagonal = (List.range k).map fun i => R.entry i i := by
  have entries : (R.zipIdx.map fun (row, i) => row[i]?)
      = (List.range k).map fun i => some (R.entry i i) := by
    apply List.ext_getElem
    · simp [shape.1]
    · intro i inside _
      have below : i < R.length := by simpa using inside
      have length := shape.2 _ (List.getElem_mem below)
      simp only [List.getElem_map, List.getElem_zipIdx, List.getElem_range, Nat.zero_add,
        Rows.entry]
      rw [List.getD_eq_getElem _ _ below, List.getElem?_eq_getElem (by have := shape.1; omega),
        List.getD_eq_getElem]
  rw [Rows.diagonal, entries, List.filterMap_map]
  simp

/-! ### Scaled columns -/

lemma dot_mul_mul (t s x : Vec ℝ) :
    dot (List.zipWith (· * ·) t s) x = dot t (List.zipWith (· * ·) s x) := by
  induction t generalizing s x with
  | nil => simp [dot]
  | cons a t ih =>
    cases s with
    | nil => simp [dot]
    | cons c s =>
      cases x with
      | nil => simp [dot]
      | cons d x =>
        simp only [List.zipWith_cons_cons, dot_cons, ih]
        ring

/-- Solving for the unknowns in units of their pivots, and measuring them in plain units again, is
solving for the unknowns. -/
lemma backSubstitute_scaled {m : ℕ} {R : Rows ℝ} {b s : Vec ℝ} (rest : Remaining m R b)
    (length : s.length = m + R.length)
    (scales : ∀ i < R.length, s.getD (m + i) 0
      = if R.entry i (m + i) = 0 then 1 else 1 / R.entry i (m + i)) :
    List.zipWith (· * ·) (s.drop m) (backSubstitute (fromPlace m (R.scaleColumns s)) b)
      = backSubstitute (fromPlace m R) b := by
  -- By induction on the rows. Where there is no pivot the unit is one, and both unknowns are zero.
  induction R generalizing m b with
  | nil => simp [fromPlace, backSubstitute, Rows.scaleColumns]
  | cons row R ih =>
    cases b with
    | nil => simpa using rest.count
    | cons a b =>
      have width := rest.length_row
      simp only [List.length_cons] at length scales
      have others := ih rest.tail (by omega) fun i below => by
        simpa [Rows.entry, show m + (i + 1) = m + 1 + i by omega] using scales (i + 1) (by omega)
      have first := scales 0 (by omega)
      simp only [Rows.entry, Nat.add_zero, List.getD_cons_zero] at first
      have drop_scales : s.drop m = s.getD m 0 :: s.drop (m + 1) := by
        rw [List.drop_eq_getElem_cons (by omega), List.getD_eq_getElem]
      have pivot : (List.zipWith (· * ·) row s).getD m 0 = row.getD m 0 * s.getD m 0 := by
        rw [List.getD_eq_getElem _ _ (by simp; omega), List.getElem_zipWith,
          List.getD_eq_getElem row _ (by omega), List.getD_eq_getElem s _ (by omega)]
      rw [show Rows.scaleColumns (row :: R) s
          = List.zipWith (· * ·) row s :: Rows.scaleColumns R s from rfl,
        backSubstitute_cons (by simp; omega), backSubstitute_cons (by omega), drop_scales,
        List.zipWith_cons_cons, others, List.drop_zipWith, dot_mul_mul, others, pivot]
      congr 1
      by_cases zero : row.getD m 0 = 0
      · rw [zero, zero_mul, if_pos rfl, mul_zero]
      · rw [if_neg zero] at first
        have scaled : row.getD m 0 * (1 / row.getD m 0) = 1 := mul_one_div_cancel zero
        rw [first, scaled, if_neg one_ne_zero, if_neg zero]
        field_simp

lemma length_columnScales (shape : R.HasShape k k) : (columnScales R).length = k := by
  simp [columnScales, diagonal_eq shape]

lemma getD_columnScales (shape : R.HasShape k k) {i : ℕ} (below : i < k) :
    (columnScales R).getD i 0 = if R.entry i i = 0 then 1 else 1 / R.entry i i := by
  rw [List.getD_eq_getElem _ _ (by rw [length_columnScales shape]; exact below)]
  simp [columnScales, diagonal_eq shape]

/-- The unit in which the unknown of row `j` is measured: the inverse of its pivot, or one where
there is no pivot. -/
noncomputable def pivotUnit (R : Rows ℝ) (j : ℕ) : ℝ :=
  if R.entry j j = 0 then 1 else 1 / R.entry j j

lemma entry_scaleColumns (shape : R.HasShape k k) {i j : ℕ} (hi : i < k) (hj : j < k) :
    (R.scaleColumns (columnScales R)).entry i j = R.entry i j * pivotUnit R j := by
  have row : i < R.length := shape.1 ▸ hi
  have width : R[i].length = k := shape.2 _ (List.getElem_mem row)
  have scales := length_columnScales shape
  rw [pivotUnit, ← getD_columnScales shape hj]
  simp [Rows.entry, Rows.scaleColumns, row, width, scales, hj, List.getD_eq_getElem?_getD]

lemma hasShape_scaleColumns (shape : R.HasShape k k) :
    (R.scaleColumns (columnScales R)).HasShape k k := by
  refine ⟨by simp [shape.1], ?_⟩
  intro row member
  obtain ⟨r, old, rfl⟩ := List.mem_map.mp member
  simp [shape.2 r old, length_columnScales shape]

/-- The scaled way to a solution leads to the same vector. -/
theorem solveScaled_eq_solve (shape : R.HasShape k k) (count : b.length = k) :
    solveScaled R b = solve R b := by
  have scaled := hasShape_scaleColumns shape
  have same := backSubstitute_scaled (remaining_of_hasShape shape count)
    (s := columnScales R) (by rw [length_columnScales shape, shape.1, Nat.zero_add])
    fun i below => by
      simpa using getD_columnScales shape (shape.1 ▸ below)
  have unknowns := length_backSubstitute (remaining_of_hasShape scaled count)
  rw [List.drop_zero] at same
  rw [solveScaled, solve_eq_ok scaled count, solve_eq_ok shape count]
  change Vec.combine (· * ·) (columnScales R) (backSubstitute (fromPlace 0 _) b) = _
  rw [Vec.combine_of_length_eq _ (by rw [length_columnScales shape, unknowns, scaled.1])]
  exact congrArg Except.ok same

lemma square_of_hasShape (positive : 0 < k) (shape : R.HasShape k k) : Square R where
  nonempty := by
    apply List.ne_nil_of_length_pos
    rw [shape.1]
    exact positive
  lengths row member := (shape.2 row member).trans shape.1.symm

/-- The least-squares problem of a triangular matrix has its solution by back substitution, however
well the matrix is conditioned. -/
theorem leastSquares_eq_ok (positive : 0 < k) (shape : R.HasShape k k) (count : b.length = k) :
    leastSquares R b = .ok (backSubstitute (fromDiagonal R) b) := by
  have square := (square_of_hasShape positive shape).isSquare
  unfold leastSquares
  simp only [square, Bool.not_true, Bool.false_eq_true, if_false]
  split_ifs
  · exact solve_eq_ok shape count
  · rw [solveScaled_eq_solve shape count, solve_eq_ok shape count]

/-! ### Matrices as arrays -/

/-- The array holds the rows of the matrix. -/
structure Holds (A : Tensor ℝ) (k : ℕ) (R : Rows ℝ) : Prop where
  shape : A.shape = [k, k]
  rows : A.slices.map Tensor.entries = R

/-- Arrays are solved by the method for matrices. -/
lemma withRightHandSide_ofVec (method : Vec ℝ → Except Error (Vec ℝ)) (R : Rows ℝ) (b : Vec ℝ) :
    withRightHandSide method R (Tensor.ofVec b) = method b := by
  unfold withRightHandSide
  rw [Tensor.length_ofVec]
  exact if_pos rfl

lemma Holds.solveArray_eq {A : Tensor ℝ} (holds : Holds A k R) :
    solveArray A (Tensor.ofVec b) = solve R b := by
  unfold solveArray
  rw [Tensor.length_ofVec, holds.rows, holds.shape]
  exact withRightHandSide_ofVec _ R b

lemma Holds.leastSquaresArray_eq {A : Tensor ℝ} (holds : Holds A k R) (square : R.isSquare = true) :
    leastSquaresArray A (Tensor.ofVec b) = leastSquares R b := by
  unfold leastSquaresArray
  rw [holds.shape, holds.rows]
  simp only [List.reverse_cons, List.reverse_nil, List.nil_append, List.singleton_append, square,
    if_true]
  exact withRightHandSide_ofVec _ R b

/-- Solving for the unknowns in units of their pivots and measuring them in plain units again gives
the vector of plain back substitution, wherever the matrix has pivots and wherever it has none. So
the least-squares problem has that solution on either side of the bound for the condition. -/
theorem leastSquares_eq_solve (positive : 0 < k) (shape : R.HasShape k k) (count : b.length = k) :
    ∃ y w : Vec ℝ, solve R b = .ok y ∧ y.length = k ∧
      (∀ i < k, ∀ j < k,
        (R.scaleColumns (columnScales R)).entry i j = R.entry i j * pivotUnit R j) ∧
      solve (R.scaleColumns (columnScales R)) b = .ok w ∧ w.length = k ∧
      (∀ j < k, pivotUnit R j * w.getD j 0 = y.getD j 0) ∧
      solveScaled R b = .ok y ∧ leastSquares R b = .ok y ∧
      ∀ A, Holds A k R → solveArray A (Tensor.ofVec b) = .ok y ∧
        leastSquaresArray A (Tensor.ofVec b) = .ok y := by
  have plain := solve_eq_ok shape count
  have best := leastSquares_eq_ok positive shape count
  have length := (solves_backSubstitute shape count).length
  have scaled := hasShape_scaleColumns shape
  have inner := solve_eq_ok scaled count
  have inner_length := (solves_backSubstitute scaled count).length
  generalize backSubstitute (fromDiagonal R) b = y at plain best length
  generalize backSubstitute _ b = w at inner inner_length
  have ways := solveScaled_eq_solve shape count
  rw [plain] at ways
  have product : y = List.zipWith (· * ·) (columnScales R) w := by
    have scales := length_columnScales shape
    have combined : Vec.combine (· * ·) (columnScales R) w = .ok y := by
      rw [← ways, solveScaled, inner]
      rfl
    rw [Vec.combine_of_length_eq _ (scales.trans inner_length.symm)] at combined
    exact (Except.ok.inj combined).symm
  have square := (square_of_hasShape positive shape).isSquare
  refine ⟨y, w, plain, length, fun i hi j hj => entry_scaleColumns shape hi hj, inner, inner_length,
    ?_, ways, best, fun A holds => ⟨?_, ?_⟩⟩
  · intro j below
    rw [product, pivotUnit, ← getD_columnScales shape below]
    simp [List.getD_eq_getElem?_getD, length_columnScales shape, inner_length, below]
  · rw [holds.solveArray_eq, plain]
  · rw [holds.leastSquaresArray_eq square, best]

theorem leastSquares_eq_solve_zeroPivot :
    Rows.HasShape 2 2 [[0, 1], [0, (2 : ℝ)]] ∧
      leastSquares [[0, 1], [0, (2 : ℝ)]] [3, 4] = .ok [0, 2] ∧
      leastSquaresArray ⟨[2, 2], [0, 1, 0, 2]⟩ (Tensor.ofVec [(3 : ℝ), 4]) = .ok [0, 2] := by
  have shape : Rows.HasShape 2 2 [[0, 1], [0, (2 : ℝ)]] := by simp [Rows.HasShape]
  have holds : Holds ⟨[2, 2], [0, 1, 0, 2]⟩ 2 [[0, 1], [0, 2]] := ⟨rfl, rfl⟩
  obtain ⟨y, w, plain, -, -, -, -, -, -, best, arrays⟩ :=
    leastSquares_eq_solve (b := [3, 4]) (by decide) shape rfl
  have solution : y = [0, 2] := by
    rw [solve_eq_ok shape rfl] at plain
    rw [← Except.ok.inj plain]
    norm_num [fromDiagonal, backSubstitute, dot]
  subst solution
  exact ⟨shape, best, (arrays _ holds).2⟩

end Triangular
end NewtonKrylov
