import NewtonKrylov.Proofs.Extended
import NewtonKrylov.Proofs.Triangular

/-!
# The solution that back substitution finds

The equations that have a pivot, and the unknowns that are zero where there is none, determine a
vector from its last entry up: the unknowns behind an entry are known when its equation is reached.
So back substitution is described by `Solves`, which speaks of no entry below the diagonal. For a
triangular matrix without a zero on its diagonal the equations are those of the whole system.

An unknown is zero or a quotient. In the arithmetic with exceptional values a quotient by zero is
not a real number, so the same unknowns come out there only if no divisor is zero.
-/

namespace NewtonKrylov

namespace Triangular

open Vec Extended

variable {k : ℕ} {R S : Rows ℝ} {b x y : Vec ℝ}

/-! ### The equations -/

/-- Two matrices have the same entries on the diagonal and above it. -/
def AgreeAbove (k : ℕ) (R S : Rows ℝ) : Prop :=
  ∀ i j, i ≤ j → j < k → R.entry i j = S.entry i j

lemma AgreeAbove.symm (agree : AgreeAbove k R S) : AgreeAbove k S R :=
  fun i j le lt => (agree i j le lt).symm

/-- What lies below the diagonal is in no equation. -/
lemma Solves.of_agreeAbove (solves : Solves k S b x) (agree : AgreeAbove k R S) :
    Solves k R b x := by
  constructor
  case length => exact solves.length
  case equation =>
    intro i below pivot
    rw [agree i i (le_refl i) below] at pivot
    rw [← solves.equation i below pivot]
    apply Finset.sum_congr rfl
    intro j mem
    obtain ⟨le, lt⟩ := Finset.mem_Ico.mp mem
    rw [agree i j le lt]
  case unused =>
    intro i below none
    rw [agree i i (le_refl i) below] at none
    exact solves.unused i below none

/-- An equation with the entries behind its pivot known determines its unknown. -/
lemma Solves.getD_eq (solves : Solves k R b x) (solves' : Solves k R b y) {i : ℕ} (below : i < k)
    (behind : ∀ j, i < j → j < k → x.getD j 0 = y.getD j 0) : x.getD i 0 = y.getD i 0 := by
  by_cases pivot : R.entry i i = 0
  · rw [solves.unused i below pivot, solves'.unused i below pivot]
  · have rest : ∑ j ∈ Finset.Ico (i + 1) k, R.entry i j * x.getD j 0
        = ∑ j ∈ Finset.Ico (i + 1) k, R.entry i j * y.getD j 0 := by
      apply Finset.sum_congr rfl
      intro j mem
      obtain ⟨lt, inside⟩ := Finset.mem_Ico.mp mem
      rw [behind j lt inside]
    have same : ∑ j ∈ Finset.Ico i k, R.entry i j * x.getD j 0
        = ∑ j ∈ Finset.Ico i k, R.entry i j * y.getD j 0 :=
      (solves.equation i below pivot).trans (solves'.equation i below pivot).symm
    rw [Finset.sum_eq_sum_Ico_succ_bot below, Finset.sum_eq_sum_Ico_succ_bot below, rest,
      add_left_inj] at same
    exact mul_left_cancel₀ pivot same

/-- No other vector solves the equations. -/
theorem Solves.unique (solves : Solves k R b x) (solves' : Solves k R b y) : x = y := by
  -- The induction is on the number of entries behind an entry.
  have entries (n : ℕ) : ∀ i < k, k - i ≤ n → x.getD i 0 = y.getD i 0 := by
    induction n with
    | zero =>
      intro i below few
      omega
    | succ n ih =>
      intro i below few
      apply solves.getD_eq solves' below
      intro j behind inside
      exact ih j inside (by omega)
  apply List.ext_getElem (solves.length.trans solves'.length.symm)
  intro i inside inside'
  have same := entries k i (solves.length ▸ inside) (Nat.sub_le k i)
  rwa [List.getD_eq_getElem _ _ inside, List.getD_eq_getElem _ _ inside'] at same

/-- The equations of a triangular matrix are those of the whole system. -/
lemma Solves.apply_eq (solves : Solves k R b x) (shape : R.HasShape k k) (count : b.length = k)
    (triangular : ∀ i < k, ∀ j < i, R.entry i j = 0) (pivots : ∀ i < k, R.entry i i ≠ 0) :
    R.apply x = b := by
  apply List.ext_getElem
  · rw [Rows.length_apply, shape.1, count]
  intro i inside inside'
  rw [Rows.length_apply] at inside
  have below : i < k := shape.1 ▸ inside
  have width : R[i].length = k := shape.2 _ (List.getElem_mem inside)
  have row (j : ℕ) : R[i].getD j 0 = R.entry i j := by
    rw [Rows.entry, List.getD_eq_getElem _ _ inside]
  have left : ∑ j ∈ Finset.range i, R.entry i j * x.getD j 0 = 0 := by
    apply Finset.sum_eq_zero
    intro j mem
    rw [triangular i below j (Finset.mem_range.mp mem), zero_mul]
  calc (R.apply x)[i] = dot R[i] x := by simp [Rows.apply]
    _ = ∑ j ∈ Finset.range k, R.entry i j * x.getD j 0 := by
      rw [dot_eq_sum (width.trans solves.length.symm), solves.length]
      simp only [row]
    _ = ∑ j ∈ Finset.Ico i k, R.entry i j * x.getD j 0 := by
      rw [← Finset.sum_range_add_sum_Ico _ below.le, left, zero_add]
    _ = b.getD i 0 := solves.equation i below (pivots i below)
    _ = b[i] := List.getD_eq_getElem _ _ inside'

/-! ### Exceptional values -/

section Exceptional

/-- A matrix of real numbers as one of extended ones. -/
noncomputable def extendRows (R : Rows ℝ) : Rows Extended := R.map ofReals

@[simp] lemma extendRows_cons (v : Vec ℝ) (R : Rows ℝ) :
    extendRows (v :: R) = ofReals v :: extendRows R := rfl

/-- A quotient of real numbers is formed only where the pivot is not zero. -/
lemma backSubstitute_extend (rows : Rows ℝ) (b : Vec ℝ) :
    backSubstitute (extendRows rows) (ofReals b) = ofReals (backSubstitute rows b) := by
  induction rows generalizing b with
  | nil => simp [backSubstitute, extendRows]
  | cons row rows ih =>
    cases row with
    | nil => simp [backSubstitute]
    | cons pivot tail =>
      cases b with
      | nil => simp [backSubstitute]
      | cons c b =>
        by_cases zero : pivot = 0
        · simp [backSubstitute, ih, zero]
        · simp [backSubstitute, ih, zero, div_coe]

lemma fromDiagonal_extendRows (R : Rows ℝ) :
    fromDiagonal (extendRows R) = extendRows (fromDiagonal R) := by
  simp [fromDiagonal, extendRows, ofReals, List.zipIdx_map]

@[simp] lemma length_extendRows (R : Rows ℝ) : (extendRows R).length = R.length := by
  simp [extendRows]

@[simp] lemma width_extendRows (R : Rows ℝ) : (extendRows R).width = R.width := by
  cases R <;> simp [Rows.width, extendRows]

lemma solve_extendRows (shape : R.HasShape k k) (count : b.length = k) :
    solve (extendRows R) (ofReals b) = .ok (ofReals (backSubstitute (fromDiagonal R) b)) := by
  simp [solve, count, shape.1, width_eq shape, fromDiagonal_extendRows, backSubstitute_extend]

end Exceptional

/-! ### The solution -/

/-- Back substitution finds the one vector that satisfies the equations with a pivot and is zero at
the others, whatever lies below the diagonal. It divides by nothing that is zero, since exceptional
values do not change its result. A triangular matrix with a pivot in every row takes the vector to
the right hand side. -/
theorem solve_determines (shape : R.HasShape k k) (count : b.length = k) :
    ∃ x, solve R b = .ok x ∧ (∀ y, Solves k R b y ↔ y = x) ∧
      (∀ S, S.HasShape k k → AgreeAbove k S R → solve S b = .ok x ∧
        ∀ A, Holds A k S → solveArray A (Tensor.ofVec b) = .ok x) ∧
      solve (extendRows R) (ofReals b) = .ok (ofReals x) ∧
      ((∀ i < k, ∀ j < i, R.entry i j = 0) → (∀ i < k, R.entry i i ≠ 0) → R.apply x = b) := by
  have solves := solves_backSubstitute shape count
  refine ⟨backSubstitute (fromDiagonal R) b, solve_eq_ok shape count, ?_, ?_,
    solve_extendRows shape count, solves.apply_eq shape count⟩
  · intro y
    constructor
    · intro solves'
      exact solves'.unique solves
    · rintro rfl
      exact solves
  · intro S shape' agree
    have same : solve S b = .ok (backSubstitute (fromDiagonal R) b) := by
      -- The equations of both matrices are the same, since they only read what is not below the
      -- diagonal.
      have solves' := (solves_backSubstitute shape' count).of_agreeAbove agree.symm
      rw [solve_eq_ok shape' count, solves'.unique solves]
    refine ⟨same, ?_⟩
    intro A holds
    rw [holds.solveArray_eq, same]

/-- The middle equation has no pivot, and there are entries below the diagonal. -/
theorem solve_determines_zeroPivot :
    Rows.HasShape 3 3 [[2, 1, 1], [5, 0, 3], [7, 8, (4 : ℝ)]] ∧
      solve [[2, 1, 1], [5, 0, 3], [7, 8, (4 : ℝ)]] [5, 9, 8] = .ok [3 / 2, 0, 2] ∧
      solve [[2, 1, 1], [0, 0, 3], [0, 0, (4 : ℝ)]] [5, 9, 8] = .ok [3 / 2, 0, 2] ∧
      ∀ y, Solves 3 [[2, 1, 1], [5, 0, 3], [7, 8, 4]] [5, 9, 8] y ↔ y = [3 / 2, 0, 2] := by
  have shape : Rows.HasShape 3 3 [[2, 1, 1], [5, 0, 3], [7, 8, (4 : ℝ)]] := by simp [Rows.HasShape]
  have cleared : Rows.HasShape 3 3 [[2, 1, 1], [0, 0, 3], [0, 0, (4 : ℝ)]] := by
    simp [Rows.HasShape]
  have agree : AgreeAbove 3 [[2, 1, 1], [0, 0, 3], [0, 0, (4 : ℝ)]]
      [[2, 1, 1], [5, 0, 3], [7, 8, 4]] := by
    intro i j le lt
    interval_cases j <;> interval_cases i <;> rfl
  obtain ⟨x, found, unique, same, -, -⟩ := solve_determines (b := [5, 9, 8]) shape rfl
  have value : x = [3 / 2, 0, 2] := by
    rw [solve_eq_ok shape rfl] at found
    rw [← Except.ok.inj found]
    norm_num [fromDiagonal, backSubstitute, dot]
  subst value
  exact ⟨shape, found, (same _ cleared agree).1, unique⟩

end Triangular

end NewtonKrylov
