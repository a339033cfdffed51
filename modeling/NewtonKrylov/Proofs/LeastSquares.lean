import Mathlib.Tactic.Lemma
import Mathlib.Tactic.SplitIfs
import Mathlib.Data.Nat.Notation
import NewtonKrylov.LeastSquares

/-!
# Square systems are accepted

Nothing here depends on the arithmetic. The least-squares problem of a square matrix has an answer
for every right hand side with one entry per row, whether or not the matrix is well conditioned and
whatever its entries are: the shapes of the scales and of the unknowns agree.
-/

namespace NewtonKrylov

namespace Triangular

variable {α : Type} [Scalar α] {R : Rows α} {b : Vec α}

lemma length_backSubstitute_of_nonempty {rows : Rows α} (nonempty : ∀ row ∈ rows, row ≠ [])
    (count : b.length = rows.length) : (backSubstitute rows b).length = rows.length := by
  induction rows generalizing b with
  | nil => simp [backSubstitute]
  | cons row rows ih =>
    cases b with
    | nil => simp at count
    | cons a b =>
      cases row with
      | nil => exact absurd rfl (nonempty [] List.mem_cons_self)
      | cons pivot tail =>
        have rest := ih (fun r member => nonempty r (List.mem_cons_of_mem _ member))
          (by simpa using count)
        simp [backSubstitute, rest]

/-- A matrix with as many columns as rows. -/
structure Square (R : Rows α) : Prop where
  nonempty : R ≠ []
  lengths : ∀ row ∈ R, row.length = R.length

namespace Square

omit [Scalar α] in
lemma isSquare (square : Square R) : R.isSquare = true := by
  simp only [Rows.isSquare, Bool.and_eq_true, Bool.not_eq_true', List.isEmpty_eq_false_iff,
    List.all_eq_true, beq_iff_eq]
  exact ⟨square.nonempty, square.lengths⟩

omit [Scalar α] in
lemma width (square : Square R) : R.width = R.length := by
  cases R with
  | nil => exact absurd rfl square.nonempty
  | cons row rows => exact square.lengths row List.mem_cons_self

omit [Scalar α] in
/-- Every row reaches to the diagonal. -/
lemma lt_length_of_mem (square : Square R) {row : Vec α} {i : ℕ} (member : (row, i) ∈ R.zipIdx) :
    i < row.length := by
  obtain ⟨below, rfl⟩ :=
    List.getElem?_eq_some_iff.mp (List.mk_mem_zipIdx_iff_getElem?.mp member)
  rwa [square.lengths R[i] (List.getElem_mem below)]

omit [Scalar α] in
lemma fromDiagonal_nonempty (square : Square R) : ∀ row ∈ fromDiagonal R, row ≠ [] := by
  intro row member
  obtain ⟨⟨r, i⟩, inside, rfl⟩ := List.mem_map.mp member
  have below := square.lt_length_of_mem inside
  apply List.ne_nil_of_length_pos
  rw [List.length_drop]
  omega

/-- Back substitution finds one unknown per row. -/
lemma exists_solve (square : Square R) (count : b.length = R.length) :
    ∃ y, solve R b = .ok y ∧ y.length = R.length := by
  refine ⟨backSubstitute (fromDiagonal R) b, ?_, ?_⟩
  · unfold solve
    simp [count, square.width]
  · have rows : (fromDiagonal R).length = R.length := by simp [fromDiagonal]
    rw [length_backSubstitute_of_nonempty square.fromDiagonal_nonempty (count.trans rows.symm),
      rows]

omit [Scalar α] in
lemma length_diagonal (square : Square R) : R.diagonal.length = R.length := by
  refine (List.filterMap_length_eq_length.mpr ?_).trans (by simp)
  intro entry member
  obtain ⟨⟨row, i⟩, inside, rfl⟩ := List.mem_map.mp member
  simpa using square.lt_length_of_mem inside

lemma length_columnScales (square : Square R) : (columnScales R).length = R.length := by
  rw [columnScales, List.length_map, square.length_diagonal]

lemma scaleColumns (square : Square R) : Square (R.scaleColumns (columnScales R)) := by
  have scales := square.length_columnScales
  constructor
  · simpa [Rows.scaleColumns] using square.nonempty
  · intro row member
    obtain ⟨r, old, rfl⟩ := List.mem_map.mp member
    simp [square.lengths r old, scales]

end Square

/-- The least-squares problem of a square matrix has an answer. -/
theorem exists_leastSquares (square : Square R) (count : b.length = R.length) :
    ∃ y, leastSquares R b = .ok y := by
  unfold leastSquares
  rw [if_neg (by simp [square.isSquare])]
  split_ifs
  · obtain ⟨y, solved, -⟩ := square.exists_solve count
    exact ⟨y, solved⟩
  · have scaled := square.scaleColumns
    obtain ⟨y, solved, length⟩ := scaled.exists_solve (b := b) (by simpa using count)
    refine ⟨List.zipWith (· * ·) (columnScales R) y, ?_⟩
    rw [Rows.length_scaleColumns] at length
    unfold solveScaled
    simp only [solved]
    exact Vec.combine_of_length_eq _ (square.length_columnScales.trans length.symm)

end Triangular

end NewtonKrylov
