import Mathlib.Analysis.Calculus.Deriv.Add
import Mathlib.Analysis.Calculus.Deriv.Mul
import Mathlib.Analysis.Calculus.Deriv.Pow
import Mathlib.Analysis.Calculus.LocalExtr.Basic
import NewtonKrylov.Proofs.LineSearch.Cubic

/-!
# The strict minimum of the cubic model

Two samples at different scales, neither of them zero, determine one cubic with the slope `-r₀` and
the value `r₀` at zero. Wherever this cubic is less than at all points close by, its derivative
vanishes and increases, and conversely. The derivative is a quadratic polynomial, so this happens at
one point at most, and the next scale of a search is that point if it lies between zero and one.

The numbers are real here. The complete list of roots is known from the arithmetic with exceptional
values, in which the same samples give the same minimizer.
-/

namespace NewtonKrylov

namespace Cubic

/-! ### The two exact arithmetics -/

section Arithmetics

open Extended

lemma minimizers_ofReal (a b c : ℝ) :
    minimizers (a : Extended) (b : Extended) (c : Extended)
      = (minimizers a b c).map (List.map ofReal) := by
  unfold minimizers
  rw [Quadratic.roots_ofReal]
  cases Quadratic.roots a b c with
  | error e => rfl
  | ok l => simp [Except.map, List.filter_map, Function.comp_def]

variable {r₀ : ℝ} {later earlier : Sample ℝ}

lemma Distinct.minimizer?_real_eq (distinct : Distinct later earlier) :
    minimizer? r₀ later earlier = do
      return least (← minimizers (leading r₀ later earlier) (middle r₀ later earlier) (-r₀)) := by
  have nonzero := distinct.determinant_ne_zero
  have quotient (a : ℝ) := Scalar.quotient_real a nonzero
  unfold leading middle earlierExcess laterExcess
  unfold determinant at nonzero quotient ⊢
  simp only [minimizer?, Scalar.square_real, Scalar.isFinite_real, beq_eq_false_iff_ne.mpr nonzero,
    Bool.not_true, Bool.or_self, Bool.false_eq_true, if_false, Nat.cast_ofNat, bind, Except.bind,
    quotient]

/-- Samples of real numbers have the same minimizer in both arithmetics. -/
lemma Distinct.minimizer?_ofReal (distinct : Distinct later earlier) :
    minimizer? (r₀ : Extended) (extend later) (extend earlier)
      = (minimizer? r₀ later earlier).map (Option.map ofReal) := by
  rw [distinct.minimizer?_eq, distinct.minimizer?_real_eq, minimizers_ofReal]
  cases minimizers (leading r₀ later earlier) (middle r₀ later earlier) (-r₀) with
  | error e => rfl
  | ok l => exact congrArg Except.ok (least_ofReal l)

/-- A minimizer is found if there is one. -/
lemma Distinct.minimizer?_real (distinct : Distinct later earlier) (r₀ : ℝ) : ∃ o : Option ℝ,
    minimizer? r₀ later earlier = .ok o ∧
      (o = none → ∀ s, ¬ IsModelMinimizer r₀ later earlier s) ∧
      ∀ m ∈ o, IsModelMinimizer r₀ later earlier m := by
  obtain ⟨o, run, none, some⟩ := distinct.minimizer?_coe r₀
  refine ⟨o, ?_, none, fun m found => (some m found).1⟩
  rw [distinct.minimizer?_ofReal] at run
  obtain ⟨_, found, same⟩ := map_eq_ok.mp run
  rw [found, Option.map_injective ofReal_injective same]

end Arithmetics

/-! ### The model as a polynomial -/

/-- The cubic with the slope `-r₀` and the value `r₀` at zero. -/
def model (r₀ a b s : ℝ) : ℝ := a * s ^ 3 + b * s ^ 2 - r₀ * s + r₀

/-- The expansion of the model at `s`. -/
lemma model_sub (r₀ a b s t : ℝ) :
    model r₀ a b t - model r₀ a b s = (t - s) * (3 * a * (s * s) + 2 * b * s + -r₀)
      + (t - s) ^ 2 * (3 * a * s + b + a * (t - s)) := by
  unfold model
  ring

lemma hasDerivAt_model (r₀ a b s : ℝ) :
    HasDerivAt (model r₀ a b) (3 * a * (s * s) + 2 * b * s + -r₀) s := by
  have cubic := (hasDerivAt_pow 3 s).const_mul a
  have quadratic := (hasDerivAt_pow 2 s).const_mul b
  have line := (hasDerivAt_id s).const_mul r₀
  refine (((cubic.add quadratic).sub line).add_const r₀).congr_deriv ?_
  norm_num
  ring

section Interpolation

variable {r₀ a b : ℝ} {later earlier : Sample ℝ}

/-- The cubic with the coefficients `a` and `b` goes through both samples. -/
structure Interpolates (r₀ : ℝ) (later earlier : Sample ℝ) (a b : ℝ) : Prop where
  at_later : model r₀ a b later.scale = later.norm
  at_earlier : model r₀ a b earlier.scale = earlier.norm

/-- Two distinct samples determine the coefficients. -/
lemma Distinct.interpolates_iff (distinct : Distinct later earlier) :
    Interpolates r₀ later earlier a b
      ↔ a = leading r₀ later earlier / 3 ∧ b = middle r₀ later earlier / 2 := by
  have nonzero := distinct.determinant_ne_zero
  unfold leading middle earlierExcess laterExcess
  constructor
  · rintro ⟨at_later, at_earlier⟩
    rw [← at_later, ← at_earlier]
    unfold model
    constructor <;> field_simp <;> unfold determinant <;> ring
  · rintro ⟨rfl, rfl⟩
    constructor <;> unfold model <;> field_simp <;> unfold determinant <;> ring

/-- The numbers that are looked for are roots of the derivative of the model. -/
lemma Distinct.isModelMinimizer_iff (distinct : Distinct later earlier)
    (through : Interpolates r₀ later earlier a b) (s : ℝ) :
    IsModelMinimizer r₀ later earlier s ↔ IsMinimizer (3 * a) (2 * b) (-r₀) s := by
  obtain ⟨rfl, rfl⟩ := distinct.interpolates_iff.mp through
  rw [mul_div_cancel₀ _ three_ne_zero, mul_div_cancel₀ _ two_ne_zero, IsModelMinimizer]

end Interpolation

/-! ### Strict minima -/

section StrictMinimum

open Filter Topology

/-- The function is less at `s` than at every other point close to it. -/
def IsStrictMinimum (f : ℝ → ℝ) (s : ℝ) : Prop := ∀ᶠ t in 𝓝[≠] s, f s < f t

variable {f : ℝ → ℝ} {r₀ a b s t : ℝ}

lemma IsStrictMinimum.isLocalMin (minimum : IsStrictMinimum f s) : IsLocalMin f s := by
  filter_upwards [eventually_nhdsWithin_iff.mp minimum] with t less
  by_cases same : t = s
  · rw [same]
  · exact (less same).le

/-- The function is greater at two points on either side, at the same distance. -/
lemma IsStrictMinimum.exists_reflected (minimum : IsStrictMinimum f s) :
    ∃ t, f s < f t ∧ f s < f (2 * s - t) := by
  have reflection : Tendsto (fun t => 2 * s - t) (𝓝[≠] s) (𝓝[≠] s) := by
    have continuous : Continuous fun t : ℝ => 2 * s - t := by fun_prop
    have apart (t : ℝ) (ne : t ≠ s) : 2 * s - t ≠ s := fun same => ne (by linarith)
    exact tendsto_nhdsWithin_iff.mpr
      ⟨(continuous.tendsto' s s (by ring)).mono_left nhdsWithin_le_nhds,
        eventually_mem_nhdsWithin.mono apart⟩
  exact (minimum.and (reflection.eventually minimum)).exists

/-- At a strict minimum the derivative of the model vanishes and increases. -/
lemma isStrictMinimum_model_iff : IsStrictMinimum (model r₀ a b) s
    ↔ 3 * a * (s * s) + 2 * b * s + -r₀ = 0 ∧ 0 < 2 * (3 * a) * s + 2 * b := by
  constructor
  · intro minimum
    have flat := minimum.isLocalMin.hasDerivAt_eq_zero (hasDerivAt_model r₀ a b s)
    refine ⟨flat, ?_⟩
    have excess {t : ℝ} (less : model r₀ a b s < model r₀ a b t) :
        0 < 3 * a * s + b + a * (t - s) := by
      rw [← sub_pos, model_sub, flat, mul_zero, zero_add] at less
      exact pos_of_mul_pos_right less (sq_nonneg _)
    -- The mean of the excesses at two points on either side is half of the second derivative.
    obtain ⟨t, here, there⟩ := minimum.exists_reflected
    linarith [excess here, excess there]
  · rintro ⟨flat, increasing⟩
    have excess : ∀ᶠ t in 𝓝 s, 0 < 3 * a * s + b + a * (t - s) := by
      have continuous : Continuous fun t : ℝ => 3 * a * s + b + a * (t - s) := by fun_prop
      refine continuous.continuousAt.eventually (lt_mem_nhds ?_)
      linarith
    filter_upwards [nhdsWithin_le_nhds excess, self_mem_nhdsWithin] with t positive ne
    rw [← sub_pos, model_sub, flat, mul_zero, zero_add]
    exact mul_pos (sq_pos_of_ne_zero (sub_ne_zero.mpr ne)) positive

/-- Between two strict minima the derivative, which is quadratic, would have to fall. -/
lemma IsStrictMinimum.unique (first : IsStrictMinimum (model r₀ a b) s)
    (second : IsStrictMinimum (model r₀ a b) t) : s = t := by
  obtain ⟨root_s, increasing_s⟩ := isStrictMinimum_model_iff.mp first
  obtain ⟨root_t, increasing_t⟩ := isStrictMinimum_model_iff.mp second
  by_contra ne
  -- The chord has the slope zero, and it is the mean of the two slopes of the derivative.
  have chord : 3 * a * (s + t) + 2 * b = 0 := by
    refine (mul_eq_zero.mp ?_).resolve_left (sub_ne_zero.mpr ne)
    linear_combination root_s - root_t
  linarith

lemma isMinimizer_iff_isStrictMinimum : IsMinimizer (3 * a) (2 * b) (-r₀) s
    ↔ 0 < s ∧ s < 1 ∧ IsStrictMinimum (model r₀ a b) s := by
  rw [isStrictMinimum_model_iff, IsMinimizer]
  tauto

end StrictMinimum

/-- The next scale is the strict minimum of the model between zero and one, and half of the scale of
the later sample if the model has none there. -/
theorem nextScale_eq_strictMinimum {later earlier : Sample ℝ} (distinct : Distinct later earlier)
    (r₀ : ℝ) :
    (∃! p : ℝ × ℝ, Interpolates r₀ later earlier p.1 p.2) ∧
      ∀ a b, Interpolates r₀ later earlier a b →
        (∀ s t, IsStrictMinimum (model r₀ a b) s → IsStrictMinimum (model r₀ a b) t → s = t) ∧
        (∀ s, 0 < s → s < 1 → IsStrictMinimum (model r₀ a b) s →
          nextScale r₀ later earlier = .ok s) ∧
        ((∀ s, 0 < s → s < 1 → ¬ IsStrictMinimum (model r₀ a b) s) →
          nextScale r₀ later earlier = .ok (later.scale / 2)) := by
  constructor
  · refine ⟨(leading r₀ later earlier / 3, middle r₀ later earlier / 2), ?_, ?_⟩
    · exact distinct.interpolates_iff.mpr ⟨rfl, rfl⟩
    · rintro ⟨a, b⟩ through
      obtain ⟨rfl, rfl⟩ := distinct.interpolates_iff.mp through
      rfl
  intro a b through
  have minimizer_iff (s : ℝ) : IsModelMinimizer r₀ later earlier s
      ↔ 0 < s ∧ s < 1 ∧ IsStrictMinimum (model r₀ a b) s :=
    (distinct.isModelMinimizer_iff through s).trans isMinimizer_iff_isStrictMinimum
  obtain ⟨o, run, none, some⟩ := distinct.minimizer?_real r₀
  have next : nextScale r₀ later earlier = .ok (orHalf later o) := congrArg (Except.map _) run
  refine ⟨fun s t => IsStrictMinimum.unique, fun s s_pos s_lt minimum => ?_, fun absent => ?_⟩
  · cases o with
    | none => exact absurd ((minimizer_iff s).mpr ⟨s_pos, s_lt, minimum⟩) (none rfl s)
    | some m =>
      obtain ⟨-, -, found⟩ := (minimizer_iff m).mp (some m rfl)
      rw [next, minimum.unique found]
      rfl
  · cases o with
    | none =>
      rw [next, orHalf, Option.getD_none, Scalar.half_real, one_div_mul_eq_div]
    | some m =>
      obtain ⟨m_pos, m_lt, found⟩ := (minimizer_iff m).mp (some m rfl)
      exact absurd found (absent m m_pos m_lt)

/-- Two samples of `s³ + s² - s + 1`, which has its minimum at one third, and two of `1 - s`, which
has none. -/
theorem nextScale_eq_strictMinimum_third :
    Distinct ⟨1 / 2, 7 / 8⟩ ⟨1, 2⟩ ∧ nextScale 1 ⟨1 / 2, 7 / 8⟩ ⟨1, 2⟩ = .ok (1 / 3 : ℝ) ∧
      nextScale 1 ⟨1 / 2, 1 / 2⟩ ⟨1, 0⟩ = .ok (1 / 2 / 2 : ℝ) := by
  have distinct (p q : ℝ) : Distinct ⟨1 / 2, p⟩ ⟨1, q⟩ := by constructor <;> norm_num
  refine ⟨distinct _ _, ?_, ?_⟩
  · have through : Interpolates 1 ⟨1 / 2, 7 / 8⟩ ⟨1, 2⟩ 1 1 := by
      constructor <;> norm_num [model]
    obtain ⟨-, found, -⟩ := (nextScale_eq_strictMinimum (distinct _ _) 1).2 1 1 through
    refine found _ (by norm_num) (by norm_num) (isStrictMinimum_model_iff.mpr ?_)
    norm_num
  · have through : Interpolates 1 ⟨1 / 2, 1 / 2⟩ ⟨1, 0⟩ 0 0 := by
      constructor <;> norm_num [model]
    obtain ⟨-, -, halved⟩ := (nextScale_eq_strictMinimum (distinct _ _) 1).2 0 0 through
    refine halved fun s _ _ minimum => ?_
    simpa using (isStrictMinimum_model_iff.mp minimum).1

end Cubic

end NewtonKrylov
