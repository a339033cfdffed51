import NewtonKrylov.Proofs.Krylov.Residual

/-!
# A cycle of one step

The first direction of a cycle is the normalized residual. If the operator only stretches it, then
one step takes away all of the residual, and the update is the residual divided by the stretch. This
needs nothing of the operator elsewhere, and no condition on the tolerance or on the choice of later
directions.
-/

namespace NewtonKrylov

open Vec

variable {n : ℕ}

namespace Cycle

variable {F : Space n → Space n} {r₀ : Space n} {ws : Workspace ℝ} {p : Progress ℝ}
  {norms : List ℝ}

/-- The first direction of a cycle from `r₀`, as soon as there is one. -/
def StartsAlong (r₀ : Space n) (ws : Workspace ℝ) : Prop :=
  0 < ws.factorization.size → ws.direction n 0 = ‖r₀‖⁻¹ • r₀

/-- The first step chooses the normalized residual, and later ones leave it in its place. -/
lemma StartsAlong.spaceAfter (P : Projected F r₀ ws p norms) (starts : StartsAlong r₀ ws) (ν : ℝ)
    (w r : Vec ℝ) :
    StartsAlong r₀ (spaceAfter ws (chosen ν p (Projected.current n ws r₀)).1
      (chosen ν p (Projected.current n ws r₀)).2 w r) := by
  intro _
  rcases Nat.eq_zero_or_pos ws.factorization.size with empty | positive
  · have direction : (chosen ν p (Projected.current n ws r₀)).2
        = divBy (Projected.current n ws r₀) p.norm := by
      rw [chosen_of_none (by rw [P.last, if_pos empty])]
    have new : (Cycle.spaceAfter ws (chosen ν p (Projected.current n ws r₀)).1
        (chosen ν p (Projected.current n ws r₀)).2 w r).direction n ws.factorization.size
          = toSpace n (chosen ν p (Projected.current n ws r₀)).2 :=
      direction_spaceAfter_last P.fits
    rw [empty] at new
    rw [new, direction, Projected.current, P.norm, empty, Workspace.remainder_zero, toSpace_divBy,
      toSpace_ofSpace]
  · rw [direction_spaceAfter P.fits positive, starts positive]

variable {stretch tolerance : ℝ} {limit : ℕ} {out : Outcome ℝ}

section Stretched

variable (P : Projected F r₀ ws p norms) (starts : StartsAlong r₀ ws)
  (positive : 0 < ws.factorization.size) (nonzero : r₀ ≠ 0) (stretched : stretch ≠ 0)
  (eigenvector : F (‖r₀‖⁻¹ • r₀) = stretch • ‖r₀‖⁻¹ • r₀)
include P starts positive eigenvector

/-- The image of the first direction lies along the first column. -/
lemma Projected.smul_column_zero :
    ws.factorization.entry 0 0 • ws.column n 0 = stretch • ‖r₀‖⁻¹ • r₀ := by
  have image := P.image_direction_eq positive
  rw [starts positive, eigenvector, combination, Finset.sum_range_zero, zero_add] at image
  exact image.symm

include nonzero stretched

lemma Projected.entry_zero_ne_zero : ws.factorization.entry 0 0 ≠ 0 := by
  intro zero
  have image := P.smul_column_zero starts positive eigenvector
  rw [zero, zero_smul, eq_comm, smul_eq_zero, smul_eq_zero, inv_eq_zero, norm_eq_zero] at image
  rcases image with none | none | none
  · exact stretched none
  · exact nonzero none
  · exact nonzero none

/-- One step leaves nothing of the residual. -/
lemma Projected.remainder_one : ws.remainder n r₀ 1 = 0 := by
  have image := P.smul_column_zero starts positive eigenvector
  have scale : r₀ = (‖r₀‖ * (stretch⁻¹ * ws.factorization.entry 0 0)) • ws.column n 0 := by
    rw [mul_smul, mul_smul, image, inv_smul_smul₀ stretched,
      smul_inv_smul₀ (norm_ne_zero_iff.mpr nonzero)]
  have column : ws.column n 0 ∈ spanBelow (ws.column n) 1 := mem_spanBelow _ one_pos
  have inside : ws.remainder n r₀ 1 ∈ spanBelow (ws.column n) 1 := by
    rw [Workspace.remainder]
    refine Submodule.sub_mem _ ?_ (combination_mem_spanBelow _ _ _)
    rw [scale]
    exact Submodule.smul_mem _ _ column
  exact inner_self_eq_zero.mp (P.inner_remainder_of_mem positive inside)

end Stretched

/-- A cycle whose operator only stretches the first direction ends after one step, with nothing
left, and the update is the residual divided by the stretch. -/
theorem run_eigenvector {op : Operator ℝ} (acts : ActsAs op F) {capacity : ℕ} (fits : capacity ≤ n)
    {used : Workspace ℝ} (empty : used.reset = .empty n capacity) (nonzero : r₀ ≠ 0)
    (ν tolerance : ℝ) {maxSteps : ℤ} (room : (min maxSteps capacity).toNat ≠ 0)
    (stretched : stretch ≠ 0) (eigenvector : F (‖r₀‖⁻¹ • r₀) = stretch • ‖r₀‖⁻¹ • r₀) :
    ∃ ws out,
      (run op (Tensor.ofVec (ofSpace r₀)) ‖r₀‖ (.ok ν) (.ok tolerance) maxSteps).run used
        = (.ok out, ws) ∧ ws.reset = .empty n capacity ∧
      out.steps = 1 ∧ out.history = [0] ∧ out.norm = 0 ∧
      out.update = ofSpace (stretch⁻¹ • r₀) := by
  obtain ⟨ws, p, out, run, reset, E, starts⟩ : ∃ ws p out,
      (run op (Tensor.ofVec (ofSpace r₀)) ‖r₀‖ (.ok ν) (.ok tolerance) maxSteps).run used
        = (.ok out, ws) ∧ ws.reset = .empty n capacity ∧
      Finished F r₀ tolerance (min maxSteps capacity).toNat ws p out ∧ StartsAlong r₀ ws :=
    run_finished acts fits empty nonzero room (fun ws _ => StartsAlong r₀ ws)
      (fun none => absurd none (lt_irrefl 0))
      fun ws p norms P starts _ _ => starts.spaceAfter P ν _ _
  have P := E.projected
  have one := P.remainder_one starts E.positive nonzero stretched eigenvector
  have pivot := P.entry_zero_ne_zero starts E.positive nonzero stretched eigenvector
  -- A second step would follow a norm of zero.
  have size : ws.factorization.size = 1 := by
    by_contra more
    obtain ⟨k, size⟩ : ∃ k, ws.factorization.size = k + 1 + 1 :=
      ⟨ws.factorization.size - 2, by have := E.positive; omega⟩
    have earlier := E.earlier
    rw [P.norms, size, List.range_succ, List.map_append, List.map_singleton,
      List.dropLast_concat] at earlier
    refine earlier ‖ws.remainder n r₀ (0 + 1)‖ (List.mem_map.mpr ⟨0, by simp, rfl⟩) (.inr ?_)
    rw [one, norm_zero]
  refine ⟨ws, out, run, reset, E.steps.trans size, ?_, ?_, ?_⟩
  · rw [P.norms, size, List.range_one, List.map_singleton, one, norm_zero]
  · rw [E.norm, size, one, norm_zero]
  · have matched : Matched ws := by
      intro i below zero
      obtain rfl : i = 0 := by omega
      exact absurd zero pivot
    have images := P.sub_images
    rw [P.gap_eq_zero_iff.mpr matched, size, one, add_zero, combination, Finset.sum_range_one,
      starts E.positive, eigenvector, sub_eq_zero] at images
    rw [E.update, size, combination, Finset.sum_range_one, starts E.positive]
    congr 1
    conv_rhs => rw [images]
    rw [smul_comm stretch⁻¹, inv_smul_smul₀ stretched]

end Cycle

end NewtonKrylov
