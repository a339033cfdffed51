import NewtonKrylov.Proofs.LineSearch.Cubic
import NewtonKrylov.Proofs.LineSearch.Run

/-!
# A line search shortens the step

In exact arithmetic a search that begins because the full step has increased the norm ends at a
scale less than one, wherever the norm is defined and whatever it is there. The first trial scale is
less than one half, a minimizer of a cubic model is taken only if it lies below one, and half of a
scale below one lies there as well.
-/

namespace NewtonKrylov

namespace Cubic

variable {α : Type} [CheckedScalar α]

/-- A minimizer is taken only if it lies between zero and one. -/
lemma minimizer?_between {r₀ : α} {later earlier : Sample α} {s : α}
    (found : minimizer? r₀ later earlier = .ok (some s)) : 0 < s ∧ s < 1 := by
  obtain ⟨sqβ, -, found⟩ := bind_eq_ok.mp found
  obtain ⟨sqγ, -, found⟩ := bind_eq_ok.mp found
  dsimp only at found
  split_ifs at found with degenerate
  · cases found
  obtain ⟨b, -, found⟩ := bind_eq_ok.mp found
  obtain ⟨a, -, found⟩ := bind_eq_ok.mp found
  obtain ⟨l, listed, found⟩ := bind_eq_ok.mp found
  obtain ⟨roots, -, ⟨⟩⟩ := bind_eq_ok.mp listed
  have member := (List.mem_filter.mp (least_mem (Except.ok.inj found))).2
  obtain ⟨positive, below, -⟩ := of_decide_eq_true member
  exact ⟨positive, below⟩

end Cubic

namespace LineSearch

variable {norm : ℝ → Except Error ℝ} {r₀ r₁ : ℝ} {tolerance : Tolerance ℝ}

@[simp] lemma liftExcept_except {β : Type} (x : Except Error β) :
    (liftExcept x : Except Error β) = x := by
  cases x <;> rfl

lemma orHalf_lt_one {before last : Sample ℝ} (lt_one : last.scale < 1) {s : Option ℝ}
    (found : Cubic.minimizer? r₀ last before = .ok s) : Cubic.orHalf last s < 1 := by
  cases s with
  | some s => exact (Cubic.minimizer?_between found).2
  | none =>
    change Scalar.half * last.scale < 1
    rw [Scalar.half_real]
    linarith

lemma quadraticScale_lt_one (nonneg : 0 ≤ r₀) (increased : ¬ r₁ ≤ r₀) {s : ℝ}
    (first : quadraticScale r₀ r₁ = .ok s) : s < 1 := by
  have r₁_pos : 0 < r₁ := nonneg.trans_lt (not_le.mp increased)
  have divisor : ((2 : ℕ) : ℝ) * (1 * r₀ + r₁ - r₀) = 2 * r₁ := by
    push_cast
    ring
  unfold quadraticScale at first
  rw [Scalar.isFinite_real, if_pos rfl, divisor,
    Scalar.quotient_real _ (mul_ne_zero two_ne_zero r₁_pos.ne')] at first
  cases first
  rw [one_mul, div_lt_one (mul_pos two_pos r₁_pos)]
  linarith

lemma backtrack_scale_lt_one (n : ℕ) {halved : Bool} {before last : Sample ℝ}
    (lt_one : last.scale < 1) {out : Outcome ℝ}
    (run : backtrack norm r₀ tolerance n halved before last = .ok out) : out.last.scale < 1 := by
  induction n generalizing halved before last out with
  | zero =>
    obtain ⟨_, _, ⟨⟩⟩ := bind_eq_ok.mp run
    exact lt_one
  | succ n ih =>
    obtain ⟨goes_on, _, run⟩ := bind_eq_ok.mp run
    split_ifs at run
    · obtain ⟨s, found, run⟩ := bind_eq_ok.mp run
      obtain ⟨next, evaluated, run⟩ := bind_eq_ok.mp run
      obtain ⟨rest, further, ⟨⟩⟩ := bind_eq_ok.mp run
      obtain ⟨r, _, ⟨⟩⟩ := bind_eq_ok.mp evaluated
      rw [liftExcept_except] at found
      exact (ih (orHalf_lt_one lt_one found) further :)
    · cases run
      exact lt_one

/-- A search from a step that has increased the norm ends at a scale less than one. -/
theorem search_scale_lt_one (nonneg : 0 ≤ r₀) (increased : ¬ r₁ ≤ r₀) {steps : Setting ℕ}
    {out : Outcome ℝ} (run : search norm r₀ r₁ tolerance steps = .ok out) : out.last.scale < 1 := by
  obtain ⟨s, first, run⟩ := bind_eq_ok.mp run
  obtain ⟨sample, evaluated, run⟩ := bind_eq_ok.mp run
  obtain ⟨r, _, ⟨⟩⟩ := bind_eq_ok.mp evaluated
  rw [liftExcept_except] at first
  have lt_one := quadraticScale_lt_one nonneg increased first
  obtain ⟨goes_on, _, run⟩ := bind_eq_ok.mp run
  split_ifs at run
  · obtain ⟨n, _, run⟩ := bind_eq_ok.mp run
    exact backtrack_scale_lt_one n lt_one run
  · cases run
    exact lt_one

end LineSearch

end NewtonKrylov
