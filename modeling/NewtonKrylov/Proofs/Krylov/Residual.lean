import NewtonKrylov.Proofs.Krylov.Projection
import NewtonKrylov.Proofs.Krylov.Subspace

/-!
# The residual of the update

The residual that a cycle carries along is never computed from the update. By
`Finished.sub_map_update` the residual of the update differs from it by a `gap`: the equations of
the triangular system that do not hold, each along its column of the orthogonal factor. Every
equation that has a pivot holds, and the gap is orthogonal to the carried residual. So both
residuals are the same if no pivot is zero, and if one is, that of the update may be the longer one.
-/

namespace NewtonKrylov

open Vec
open scoped InnerProductSpace

variable {n : ℕ}

namespace Cycle

/-- The value of equation `i` of the triangular system at its solution. -/
noncomputable def value (ws : Workspace ℝ) (i : ℕ) : ℝ :=
  ∑ j ∈ Finset.range ws.factorization.size, ws.factorization.entry i j * (solution ws).getD j 0

/-- Do the equations that have no pivot hold all the same? -/
def Matched (ws : Workspace ℝ) : Prop :=
  ∀ i < ws.factorization.size, ws.factorization.entry i i = 0 →
    value ws i = ws.coefficients.getD i 0

/-- What the equations that do not hold leave of the residual, each along its column. -/
noncomputable def gap (n : ℕ) (ws : Workspace ℝ) : Space n :=
  combination n (fun i => ws.coefficients.getD i 0 - value ws i) (ws.column n)
    ws.factorization.size

variable {F : Space n → Space n} {r₀ : Space n} {ws : Workspace ℝ} {p : Progress ℝ}
  {norms : List ℝ}

namespace Projected

/-! ### What is left -/

/-- What is left of the residual after `k` steps is orthogonal to all that the first `k` columns
reach. -/
lemma inner_remainder_of_mem (P : Projected F r₀ ws p norms) {k : ℕ}
    (atMost : k ≤ ws.factorization.size) {v : Space n} (inside : v ∈ spanBelow (ws.column n) k) :
    ⟪v, ws.remainder n r₀ k⟫_ℝ = 0 := by
  induction inside using Submodule.span_induction with
  | mem v generator =>
    obtain ⟨j, below, rfl⟩ := generator
    exact P.inner_column_remainder below atMost
  | zero => exact inner_zero_left _
  | add u v _ _ hu hv => rw [inner_add_left, hu, hv, add_zero]
  | smul c v _ hv => rw [real_inner_smul_left, hv, mul_zero]

/-- If the columns reach what is left of the residual, nothing is left of it. -/
lemma remainder_eq_zero (P : Projected F r₀ ws p norms)
    (inside : ws.remainder n r₀ ws.factorization.size
      ∈ spanBelow (ws.column n) ws.factorization.size) :
    ws.remainder n r₀ ws.factorization.size = 0 :=
  inner_self_eq_zero.mp (P.inner_remainder_of_mem le_rfl inside)

/-- As many columns as there are dimensions leave nothing of the residual, whatever the operator
does. -/
theorem remainder_of_full (P : Projected F r₀ ws p norms) (full : ws.factorization.size = n) :
    ws.remainder n r₀ ws.factorization.size = 0 := by
  have orthonormal : Orthonormal ℝ fun i : Fin n => ws.column n i := by
    rw [orthonormal_iff_ite]
    intro i j
    rw [P.inner_column (by omega) (by omega)]
    simp [Fin.ext_iff]
  have whole : (⊤ : Submodule ℝ (Space n)) ≤ spanBelow (ws.column n) ws.factorization.size := by
    rw [← orthonormal.linearIndependent.span_eq_top_of_card_eq_finrank' (by simp),
      Submodule.span_le]
    rintro _ ⟨i, rfl⟩
    exact mem_spanBelow (ws.column n) (by omega)
  exact P.remainder_eq_zero (whole Submodule.mem_top)

/-! ### The gap -/

lemma image_getD (P : Projected F r₀ ws p norms) {j : ℕ} (below : j < ws.factorization.size) :
    toSpace n ((ws.directions.map fun z => ofSpace (F (toSpace n z))).getD j [])
      = F (ws.direction n j) := by
  have count := P.fits.length_directions
  have inside : j < ws.directions.length := by omega
  rw [List.getD_eq_getElem _ _ (by simpa using inside), List.getElem_map, toSpace_ofSpace,
    Workspace.direction, List.getD_eq_getElem _ _ inside]

/-- The image of a direction in terms of the columns. -/
lemma image_direction (P : Projected F r₀ ws p norms) {j : ℕ}
    (below : j < ws.factorization.size) :
    F (ws.direction n j)
      = combination n (ws.factorization.entry · j) (ws.column n) ws.factorization.size := by
  rw [← P.image_getD below]
  exact P.factors.input_eq_combination below

/-- Only the columns so far take part, because the entries below the pivot are zero. -/
lemma image_direction_eq (P : Projected F r₀ ws p norms) {j : ℕ}
    (below : j < ws.factorization.size) :
    F (ws.direction n j) = combination n (ws.factorization.entry · j) (ws.column n) j
      + ws.factorization.entry j j • ws.column n j := by
  rw [P.image_direction below, ← combination_succ (ws.factorization.entry · j)]
  symm
  apply Finset.sum_subset
  · intro i member
    rw [Finset.mem_range] at member ⊢
    omega
  · intro i _ outside
    rw [Finset.mem_range] at outside
    have zero : ws.factorization.entry i j = 0 := P.factors.triangular i j (by omega)
    simp only [zero, zero_smul]

/-- The images of the directions leave what the projection leaves, and the gap. -/
theorem sub_images (P : Projected F r₀ ws p norms) :
    r₀ - combination n ((solution ws).getD · 0) (fun j => F (ws.direction n j))
        ws.factorization.size
      = ws.remainder n r₀ ws.factorization.size + gap n ws := by
  have images : combination n ((solution ws).getD · 0) (fun j => F (ws.direction n j))
      ws.factorization.size = combination n (value ws) (ws.column n) ws.factorization.size := by
    rw [combination_congr (fun _ _ => rfl) fun j below => P.image_direction below]
    simp only [combination, value, Finset.smul_sum, Finset.sum_smul, smul_smul]
    rw [Finset.sum_comm]
    apply Finset.sum_congr rfl
    intro i _
    apply Finset.sum_congr rfl
    intro j _
    rw [mul_comm]
  rw [images, Workspace.remainder, gap, combination, combination, combination, sub_add,
    ← Finset.sum_sub_distrib]
  congr 1
  apply Finset.sum_congr rfl
  intro i _
  module

/-- An equation that has a pivot holds. -/
lemma value_eq (P : Projected F r₀ ws p norms) {i : ℕ} (below : i < ws.factorization.size)
    (pivot : ws.factorization.entry i i ≠ 0) : value ws i = ws.coefficients.getD i 0 := by
  rw [← P.factors.entry_triangular below below] at pivot
  rw [value, ← P.solves_solution.equation i below pivot]
  -- The entries in front of the pivot are zero.
  have front : ∀ j ∈ Finset.range ws.factorization.size, j ∉ Finset.Ico i ws.factorization.size →
      ws.factorization.entry i j * (solution ws).getD j 0 = 0 := by
    intro j inside outside
    rw [Finset.mem_range] at inside
    rw [Finset.mem_Ico, not_and_or] at outside
    have zero : ws.factorization.entry i j = 0 := P.factors.triangular i j (by omega)
    rw [zero, zero_mul]
  rw [← Finset.sum_subset (fun j member => Finset.mem_range.mpr (Finset.mem_Ico.mp member).2) front]
  apply Finset.sum_congr rfl
  intro j member
  rw [P.factors.entry_triangular below (Finset.mem_Ico.mp member).2]

lemma norm_combination_sq (P : Projected F r₀ ws p norms) (c : ℕ → ℝ) :
    ‖combination n c (ws.column n) ws.factorization.size‖ ^ 2
      = ∑ i ∈ Finset.range ws.factorization.size, c i ^ 2 := by
  rw [← real_inner_self_eq_norm_sq, combination, sum_inner]
  apply Finset.sum_congr rfl
  intro i member
  have hi := Finset.mem_range.mp member
  rw [inner_sum, Finset.sum_eq_single_of_mem i member]
  · rw [real_inner_smul_left, real_inner_smul_right, P.inner_column hi hi, if_pos rfl]
    ring
  · intro j other different
    rw [real_inner_smul_left, real_inner_smul_right,
      P.inner_column hi (Finset.mem_range.mp other), if_neg different.symm]
    ring

/-- There is no gap exactly if the equations without a pivot hold. -/
theorem gap_eq_zero_iff (P : Projected F r₀ ws p norms) : gap n ws = 0 ↔ Matched ws := by
  constructor
  · intro none i below _
    have squares := P.norm_combination_sq fun i => ws.coefficients.getD i 0 - value ws i
    rw [← gap, none, norm_zero, zero_pow two_ne_zero, eq_comm,
      Finset.sum_eq_zero_iff_of_nonneg fun i _ => sq_nonneg _] at squares
    have side := squares i (Finset.mem_range.mpr below)
    rw [sq_eq_zero_iff, sub_eq_zero] at side
    exact side.symm
  · intro matched
    rw [gap, combination]
    apply Finset.sum_eq_zero
    intro i member
    have below := Finset.mem_range.mp member
    have holds : value ws i = ws.coefficients.getD i 0 := by
      by_cases pivot : ws.factorization.entry i i = 0
      · exact matched i below pivot
      · exact P.value_eq below pivot
    simp only [holds, sub_self, zero_smul]

/-- What the projection leaves is orthogonal to the gap, so the gap can only make it longer. -/
theorem norm_add_gap (P : Projected F r₀ ws p norms) :
    ‖ws.remainder n r₀ ws.factorization.size + gap n ws‖ ^ 2
      = ‖ws.remainder n r₀ ws.factorization.size‖ ^ 2 + ‖gap n ws‖ ^ 2 := by
  have orthogonal : ⟪ws.remainder n r₀ ws.factorization.size, gap n ws⟫_ℝ = 0 := by
    rw [gap, combination, inner_sum]
    apply Finset.sum_eq_zero
    intro i member
    rw [real_inner_smul_right, real_inner_comm,
      P.inner_column_remainder (Finset.mem_range.mp member) le_rfl, mul_zero]
  rw [norm_add_sq_real, orthogonal]
  ring

lemma norm_add_gap_eq_iff (P : Projected F r₀ ws p norms) :
    ‖ws.remainder n r₀ ws.factorization.size + gap n ws‖
      = ‖ws.remainder n r₀ ws.factorization.size‖ ↔ gap n ws = 0 := by
  have squares := P.norm_add_gap
  constructor
  · intro same
    rw [same, left_eq_add, sq_eq_zero_iff, norm_eq_zero] at squares
    exact squares
  · intro none
    rw [none, add_zero]

end Projected

namespace Finished

lemma getLast?_history {tolerance : ℝ} {limit : ℕ} {out : Outcome ℝ}
    (E : Finished F r₀ tolerance limit ws p out) : out.history.getLast? = some out.norm := by
  obtain ⟨k, size⟩ := Nat.exists_eq_succ_of_ne_zero E.positive.ne'
  rw [E.projected.norms, E.norm, size, List.range_succ, List.map_append, List.map_singleton,
    List.getLast?_append]
  rfl

/-- With room for as many steps as there are dimensions a cycle ends below its tolerance, or with
nothing left. -/
lemma norm_lt_or_eq_zero {tolerance : ℝ} {out : Outcome ℝ}
    (E : Finished F r₀ tolerance n ws p out) : out.norm < tolerance ∨ out.norm = 0 := by
  rcases E.reason with full | reached
  · right
    rw [E.norm, E.projected.remainder_of_full full, norm_zero]
  · exact reached

lemma norm_le {tolerance : ℝ} {out : Outcome ℝ} (E : Finished F r₀ tolerance n ws p out)
    (nonneg : 0 ≤ tolerance) : out.norm ≤ tolerance := by
  rcases E.norm_lt_or_eq_zero with below | zero
  · exact below.le
  · rwa [zero]

variable {A : Space n →ₗ[ℝ] Space n} {tolerance : ℝ} {limit : ℕ} {out : Outcome ℝ}

/-- The residual of the update of a linear operator, in terms of the residual that is carried. -/
theorem sub_map_update (E : Finished A r₀ tolerance limit ws p out) :
    r₀ - A (toSpace n out.update)
      = ws.remainder n r₀ ws.factorization.size + gap n ws := by
  rw [E.update, toSpace_ofSpace, map_combination]
  exact E.projected.sub_images

/-- Without zero pivots it is the residual that is carried. -/
theorem sub_map_update_of_pivots (E : Finished A r₀ tolerance limit ws p out)
    (pivots : ∀ i < ws.factorization.size, ws.factorization.entry i i ≠ 0) :
    r₀ - A (toSpace n out.update) = ws.remainder n r₀ ws.factorization.size := by
  have matched : Matched ws := fun i below zero => absurd zero (pivots i below)
  rw [E.sub_map_update, E.projected.gap_eq_zero_iff.mpr matched, add_zero]

end Finished

end Cycle

end NewtonKrylov
