import Mathlib.Analysis.InnerProductSpace.Projection.FiniteDimensional
import NewtonKrylov.Proofs.Krylov.Breakdown

/-!
# The outcome of a cycle does not depend on the directions

For an invertible linear operator the directions of a cycle are a matter of taste. After `k` steps
the columns span the images of the Krylov space of dimension `k`, so what is left of the residual is
its projection onto the orthogonal complement of these images. With it the norms, the step at which
the cycle stops, and the update are determined by the operator, the residual, the tolerance and the
number of steps allowed: by `Finished.outcome_unique` two cycles that have these in common have the
same outcome, and by `run_unique` neither the threshold for the choice of the directions nor the
room that is left in the work space is of any influence.
-/

namespace NewtonKrylov

open Vec
open scoped InnerProductSpace

variable {n : ℕ}

/-- What the images of the Krylov space of dimension `k` cannot reach of the residual. -/
noncomputable def leastResidual (A : Space n →ₗ[ℝ] Space n) (r : Space n) (k : ℕ) : Space n :=
  ((krylov A r k).map A)ᗮ.starProjection r

namespace Cycle

variable {A : Space n →ₗ[ℝ] Space n} {r₀ : Space n} {ws : Workspace ℝ} {p : Progress ℝ}
  {norms : List ℝ}

/-! ### What is left of the residual -/

/-- What is left of the residual is what the images of the Krylov space cannot reach, wherever the
directions came from. -/
theorem Adapted.remainder_eq (S : Adapted A r₀ ws) (P : Projected A r₀ ws p norms) {k : ℕ}
    (atMost : k ≤ ws.factorization.size) : ws.remainder n r₀ k = leastResidual A r₀ k := by
  have columns := S.columns k atMost
  have orthogonal : ws.remainder n r₀ k ∈ ((krylov A r₀ k).map A)ᗮ := by
    rw [← columns, Submodule.mem_orthogonal]
    intro v inside
    exact P.inner_remainder_of_mem atMost inside
  have reached : combination n (ws.coefficients.getD · 0) (ws.column n) k
      ∈ ((krylov A r₀ k).map A)ᗮᗮ := by
    rw [Submodule.orthogonal_orthogonal, ← columns]
    exact combination_mem_spanBelow _ _ k
  rw [leastResidual]
  exact (Submodule.eq_starProjection_of_mem_orthogonal' orthogonal reached
    (sub_add_cancel _ _).symm).symm

/-! ### The outcome of a cycle -/

section Unique

variable {tolerance : ℝ} {limit : ℕ} {out : Outcome ℝ}

lemma Finished.norm_eq (E : Finished A r₀ tolerance limit ws p out) (S : Adapted A r₀ ws) :
    out.norm = ‖leastResidual A r₀ out.steps‖ := by
  rw [E.norm, S.remainder_eq E.projected le_rfl, E.steps]

lemma Finished.history_eq (E : Finished A r₀ tolerance limit ws p out) (S : Adapted A r₀ ws) :
    out.history = (List.range out.steps).map fun j => ‖leastResidual A r₀ (j + 1)‖ := by
  rw [E.projected.norms, E.steps]
  apply List.map_congr_left
  intro j member
  rw [S.remainder_eq E.projected (List.mem_range.mp member)]

/-- The update is the only point whose image leaves the least residual. -/
lemma Finished.map_update (E : Finished A r₀ tolerance limit ws p out) (S : Adapted A r₀ ws)
    (injective : Function.Injective A) :
    A (toSpace n out.update) = r₀ - leastResidual A r₀ out.steps := by
  have left := E.sub_map_update_of_adapted S injective
  rw [S.remainder_eq E.projected le_rfl, ← E.steps] at left
  rw [← left, sub_sub_cancel]

variable {ws' : Workspace ℝ} {p' : Progress ℝ} {out' : Outcome ℝ}

/-- A cycle goes on as long as another one with the same tolerance does. -/
lemma Finished.steps_le (E : Finished A r₀ tolerance limit ws p out) (S : Adapted A r₀ ws)
    (E' : Finished A r₀ tolerance limit ws' p' out') (S' : Adapted A r₀ ws') :
    out'.steps ≤ out.steps := by
  by_contra longer
  have atMost : out'.steps ≤ limit := E'.steps.trans_le E'.atMost
  have positive : 0 < out.steps := E.positive.trans_eq E.steps.symm
  -- The longer cycle has passed the step at which the other one stopped.
  have passed : out.norm ∈ out'.history.dropLast := by
    rw [E'.history_eq S', E.norm_eq S, List.dropLast_eq_take, List.length_map, List.length_range,
      ← List.map_take, List.take_range, List.mem_map]
    exact ⟨out.steps - 1, by simp; omega, by rw [Nat.sub_add_cancel positive]⟩
  have goes_on := E'.earlier out.norm passed
  rcases E.reason with full | stops
  · have := E.steps
    omega
  · exact goes_on stops

/-- Two cycles from one residual, with the same operator, tolerance and number of steps allowed,
have the same outcome. -/
theorem Finished.outcome_unique (E : Finished A r₀ tolerance limit ws p out) (S : Adapted A r₀ ws)
    (E' : Finished A r₀ tolerance limit ws' p' out') (S' : Adapted A r₀ ws')
    (injective : Function.Injective A) : out = out' := by
  have steps : out.steps = out'.steps := le_antisymm (E'.steps_le S' E S) (E.steps_le S E' S')
  have update : out.update = out'.update := by
    apply eq_of_toSpace_eq (n := n) (by rw [E.update, length_ofSpace])
      (by rw [E'.update, length_ofSpace])
    apply injective
    rw [E.map_update S injective, E'.map_update S' injective, steps]
  have residual : out.residual = out'.residual := by
    rw [E.residual, E'.residual, S.remainder_eq E.projected le_rfl,
      S'.remainder_eq E'.projected le_rfl, ← E.steps, ← E'.steps, steps]
  have norm : out.norm = out'.norm := by rw [E.norm_eq S, E'.norm_eq S', steps]
  have history : out.history = out'.history := by rw [E.history_eq S, E'.history_eq S', steps]
  cases out
  cases out'
  simp only at update residual norm steps history
  rw [update, residual, norm, steps, history]

end Unique

/-- From a residual other than zero there is one outcome for each number of steps allowed, whatever
the threshold and whatever the size of the work space. -/
theorem run_unique {op : Operator ℝ} (acts : ActsAs op A) (injective : Function.Injective A)
    (nonzero : r₀ ≠ 0) (tolerance : ℝ) {k : ℕ} (positive : 0 < k) (room : k ≤ n) :
    ∃ out, ∀ {ν : ℝ}, ν < 1 → ∀ {capacity limit : ℕ}, capacity ≤ n → min limit capacity = k →
      ∀ {used : Workspace ℝ}, used.reset = .empty n capacity →
      ∃ ws p,
        (run op (Tensor.ofVec (ofSpace r₀)) ‖r₀‖ (.ok ν) (.ok tolerance) limit).run used
          = (.ok out, ws) ∧ ws.reset = .empty n capacity ∧
        Finished A r₀ tolerance k ws p out ∧ Adapted A r₀ ws := by
  -- The outcome is that of a cycle with the threshold zero and no more room than it needs.
  obtain ⟨ws₀, p₀, out, -, -, E₀, S₀⟩ := run_adapted acts injective zero_lt_one tolerance room
    (show (Workspace.empty n k).reset = _ from rfl) nonzero
    (show (min (k : ℤ) k).toNat ≠ 0 by omega)
  rw [min_self, Int.toNat_natCast] at E₀
  refine ⟨out, ?_⟩
  intro ν small capacity limit fits allowed used empty
  obtain ⟨ws, p, out', run, reset, E, S⟩ := run_adapted acts injective small tolerance fits empty
    nonzero (show (min (limit : ℤ) capacity).toNat ≠ 0 by omega)
  rw [show (min (limit : ℤ) capacity).toNat = k by omega] at E
  obtain rfl : out' = out := E.outcome_unique S E₀ S₀ injective
  exact ⟨ws, p, run, reset, E, S⟩

end Cycle

end NewtonKrylov
