import NewtonKrylov.Proofs.Krylov.Uniqueness
import NewtonKrylov.Proofs.LinearSystem.Residual

/-!
# What cycles come to together

The outcomes of cycles that follow each other add up: `Outcome.append` sums the updates and joins
the histories. So what the cycles do to a state is the outcome of a single long cycle.

For an invertible linear operator this outcome is determined by the residual, the tolerance, the
number of steps in all and the number of steps of the first cycle. By `cycles_unique` the threshold
does not matter, nor the size of the work space, nor what the state has already summed up. The
residual that is carried along is that of the update.
-/

namespace NewtonKrylov

namespace Vec

protected lemma add_assoc (u v w : Vec ℝ) : add (add u v) w = add u (add v w) := by
  induction u generalizing v w with
  | nil => rfl
  | cons a u ih =>
    match v, w with
    | [], _ => rfl
    | _ :: _, [] => rfl
    | b :: v, c :: w =>
      change (a + b + c) :: add (add u v) w = (a + (b + c)) :: add u (add v w)
      rw [ih, add_assoc]

end Vec

/-- What a cycle and those after it come to together. -/
def Cycle.Outcome.append {α : Type} [Scalar α] (out later : Cycle.Outcome α) : Cycle.Outcome α :=
  ⟨Vec.add out.update later.update, later.residual, later.norm, out.steps + later.steps,
    out.history ++ later.history⟩

namespace LinearSystem

open Vec NewtonKrylov.Cycle

variable {n : ℕ}

lemma advance_advance (s : State ℝ) (ws ws' : Workspace ℝ) (out later : Outcome ℝ) :
    (s.advance ws out).advance ws' later = s.advance ws' (out.append later) := by
  simp only [State.advance, Outcome.append, Vec.add_assoc, List.append_assoc]

section Unique

variable {op : Operator ℝ} {B : Space n →ₗ[ℝ] Space n} {tolerance : ℝ} {r : Space n} {k : ℕ}

/-- One cycle from a state with a given residual. -/
lemma state_run_unique (acts : ActsAs op B) (injective : Function.Injective B) (nonzero : r ≠ 0)
    (tolerance : ℝ) (positive : 0 < k) (room : k ≤ n) :
    ∃ out : Outcome ℝ, toSpace n out.residual.entries = r - B (toSpace n out.update) ∧
      out.norm = ‖toSpace n out.residual.entries‖ ∧ out.update.length = n ∧
      ∀ {ν : ℝ}, ν < 1 → ∀ {capacity limit : ℕ}, capacity ≤ n → min limit capacity = k →
      ∀ {s : State ℝ}, Consistent n capacity s → s.residualPoint n = r →
      ∃ ws,
        (Cycle.run op s.residual s.norm (.ok ν) (.ok tolerance) limit).run s.workspace
          = (.ok out, ws) ∧ Consistent n capacity (s.advance ws out) := by
  obtain ⟨out, runs⟩ := run_unique acts injective nonzero tolerance positive room
  obtain ⟨_, _, -, -, E, S⟩ :=
    runs zero_lt_one room (min_self k) (show (Workspace.empty n k).reset = _ from rfl)
  have left := E.sub_map_update_of_adapted S injective
  refine ⟨out, ?_, ?_, ?_, ?_⟩
  · rw [left, E.residual, Tensor.ofVec, toSpace_ofSpace]
  · rw [E.norm, E.residual, Tensor.ofVec, toSpace_ofSpace]
  · rw [E.update, length_ofSpace]
  · rintro ν small capacity limit fits allowed s T rfl
    obtain ⟨ws, p, run, reset, E, -⟩ := runs small fits allowed T.workspace
    rw [← T.residual, ← T.norm] at run
    exact ⟨ws, run, T.advance reset E.carried⟩

/-- From a residual above the tolerance there is one outcome of all cycles for each number of steps
in all and each number of steps of the first cycle. -/
theorem cycles_unique (acts : ActsAs op B) (injective : Function.Injective B)
    (nonneg : 0 ≤ tolerance) (remaining : ℕ) (large : tolerance < ‖r‖) (positive : 0 < k)
    (room : k ≤ n) :
    ∃ out : Outcome ℝ, toSpace n out.residual.entries = r - B (toSpace n out.update) ∧
      out.update.length = n ∧
      ∀ {ν : ℝ}, ν < 1 → ∀ {capacity limit : ℕ}, capacity ≤ n → min limit capacity = k →
      ∀ {s : State ℝ}, Consistent n capacity s → s.residualPoint n = r →
      ∃ ws, cycles op ν tolerance remaining limit s = .ok (s.advance ws out) ∧
        Consistent n capacity (s.advance ws out) := by
  -- By strong induction on the steps that are left. The outcome is fixed before thresholds and
  -- capacities are chosen, as one for all of them is wanted.
  induction remaining using Nat.strong_induction_on generalizing r k with
  | _ remaining ih =>
    have nonzero : r ≠ 0 := norm_pos_iff.mp (nonneg.trans_lt large)
    obtain ⟨out, left, norm, length, first⟩ :=
      state_run_unique acts injective nonzero tolerance positive room
    by_cases goes_on : tolerance < out.norm ∧ out.steps < remaining ∧ 0 < out.steps
    · obtain ⟨above, fewer, some_step⟩ := goes_on
      obtain ⟨later, rest, length', others⟩ := ih (remaining - out.steps) (by omega)
        (norm ▸ above) (show 0 < min k (remaining - out.steps) by omega) (by omega)
      refine ⟨out.append later, ?_, ?_, ?_⟩
      · change toSpace n later.residual.entries = r - B (toSpace n (add out.update later.update))
        rw [rest, left, toSpace_add length length', map_add, sub_sub]
      · rw [Outcome.append, length_add, length, length', min_self]
      intro ν small capacity limit fits allowed s T same
      obtain ⟨ws, run, next⟩ := first small fits allowed T same
      obtain ⟨ws', ran, ends⟩ := others small fits
        (show min (min limit (remaining - out.steps)) capacity = _ by omega) next rfl
      rw [advance_advance] at ran ends
      rw [cycles_of_run run, if_pos ⟨above, fewer, some_step⟩]
      exact ⟨ws', ran, ends⟩
    · refine ⟨out, left, length, ?_⟩
      intro ν small capacity limit fits allowed s T same
      obtain ⟨ws, run, next⟩ := first small fits allowed T same
      rw [cycles_of_run run, if_neg goes_on]
      exact ⟨ws, rfl, next⟩

end Unique

end LinearSystem

end NewtonKrylov
