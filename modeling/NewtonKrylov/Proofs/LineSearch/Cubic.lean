import Mathlib.Topology.Order.IntermediateValue
import NewtonKrylov.LineSearch.Cubic
import NewtonKrylov.Proofs.LineSearch.Quadratic

/-!
# The cubic model without rounding

Through two samples at different scales goes exactly one cubic `r(s) = a' s³ + b' s² - r₀ s + r₀`.
`leading` and `middle` are the coefficients of its derivative. If the later sample lies above `r₀`,
then the derivative, which is `-r₀` at zero, is positive at two thirds of the scale of that sample.
So the model has its minimum before, and the next scale is at most two thirds of the last one.
-/

namespace NewtonKrylov

namespace Cubic

open Extended

/-- A sample of real numbers as one of extended numbers. -/
noncomputable def extend (t : Sample ℝ) : Sample Extended := ⟨t.scale, t.norm⟩

/-! ### The least of a list -/

section Least

/-- The choice between two numbers by which the least of a list is found. -/
lemma foldl_mem {α : Type} [CheckedScalar α] (s : α) (l : List α) :
    l.foldl (fun m t => if t < m then t else m) s ∈ s :: l := by
  induction l generalizing s with
  | nil => exact List.mem_cons_self
  | cons t l ih =>
    rw [List.foldl_cons]
    split_ifs
    · exact List.mem_cons_of_mem s (ih t)
    · rcases List.mem_cons.mp (ih s) with same | later
      · rw [same]
        exact List.mem_cons_self
      · exact List.mem_cons_of_mem s (List.mem_cons_of_mem t later)

lemma least_mem {α : Type} [CheckedScalar α] {l : List α} {s : α} (found : least l = some s) :
    s ∈ l := by
  cases l with
  | nil => cases found
  | cons t l =>
    cases found
    exact foldl_mem t l

lemma foldl_le (s : ℝ) (l : List ℝ) :
    ∀ t ∈ s :: l, l.foldl (fun m t => if t < m then t else m) s ≤ t := by
  induction l generalizing s with
  | nil => simp
  | cons t l ih =>
    rw [List.foldl_cons]
    split_ifs with smaller
    · exact List.forall_mem_cons.mpr ⟨(ih t t List.mem_cons_self).trans smaller.le, ih t⟩
    · obtain ⟨first, others⟩ := List.forall_mem_cons.mp (ih s)
      exact List.forall_mem_cons.mpr
        ⟨first, List.forall_mem_cons.mpr ⟨first.trans (not_lt.mp smaller), others⟩⟩

lemma least_le {l : List ℝ} {m s : ℝ} (found : least l = some m) (mem : s ∈ l) : m ≤ s := by
  cases l with
  | nil => cases mem
  | cons t l =>
    cases found
    exact foldl_le t l s mem

lemma least_eq_none_iff {l : List ℝ} : least l = none ↔ l = [] := by
  cases l <;> simp [least]

lemma least_ofReal (l : List ℝ) : least (l.map ofReal) = (least l).map ofReal := by
  cases l with
  | nil => rfl
  | cons s l =>
    refine congrArg some ?_
    induction l generalizing s with
    | nil => rfl
    | cons t l ih => by_cases smaller : t < s <;> simp [smaller, ih]

end Least

/-! ### The minimizers -/

/-- The numbers that are looked for among the roots of the derivative `a s² + b s + c`. -/
def IsMinimizer (a b c s : ℝ) : Prop :=
  a * (s * s) + b * s + c = 0 ∧ 0 < s ∧ s < 1 ∧ 0 < 2 * a * s + b

lemma minimizers_coe (a b c : ℝ) : ∃ l : List ℝ,
    minimizers (a : Extended) (b : Extended) (c : Extended) = .ok (l.map ofReal) ∧
      ∀ s, s ∈ l ↔ IsMinimizer a b c s := by
  obtain ⟨l, run, mem⟩ := Quadratic.roots_coe a b c
  refine ⟨l.filter fun s => 0 < s ∧ s < 1 ∧ 0 < 2 * a * s + b, ?_, fun s => ?_⟩
  · simp [minimizers, run, List.filter_map, Function.comp_def]
  · rw [List.mem_filter, decide_eq_true_iff, IsMinimizer]
    by_cases nonconstant : a ≠ 0 ∨ b ≠ 0
    · rw [mem nonconstant]
    · obtain ⟨rfl, rfl⟩ : a = 0 ∧ b = 0 := by simpa [not_or] using nonconstant
      simp

/-! ### The model through two samples -/

section Model

variable (r₀ : ℝ) (later earlier : Sample ℝ)

/-- The determinant of the equations for the coefficients of the model. -/
def determinant : ℝ :=
  later.scale * later.scale * (earlier.scale * earlier.scale) * (later.scale - earlier.scale)

/-- How far the earlier sample lies above the line, by the scale of the later one. -/
def earlierExcess : ℝ :=
  later.scale * later.scale * (earlier.norm + r₀ * (earlier.scale - 1))

/-- How far the later sample lies above the line, by the scale of the earlier one. -/
def laterExcess : ℝ :=
  earlier.scale * earlier.scale * (later.norm + r₀ * (later.scale - 1))

/-- The coefficient of the derivative of the model at `s²`. -/
noncomputable def leading : ℝ :=
  -3 * (earlierExcess r₀ later earlier - laterExcess r₀ later earlier) / determinant later earlier

/-- The coefficient of the derivative of the model at `s`. -/
noncomputable def middle : ℝ :=
  2 * (later.scale * earlierExcess r₀ later earlier - earlier.scale * laterExcess r₀ later earlier)
    / determinant later earlier

/-- A local minimum of the model between zero and one. -/
def IsModelMinimizer (s : ℝ) : Prop :=
  IsMinimizer (leading r₀ later earlier) (middle r₀ later earlier) (-r₀) s

/-- Two samples determine a model if they lie at different scales, neither of which is zero. -/
structure Distinct (later earlier : Sample ℝ) : Prop where
  later_ne_zero : later.scale ≠ 0
  earlier_ne_zero : earlier.scale ≠ 0
  ne : later.scale ≠ earlier.scale

variable {r₀ later earlier}

lemma Distinct.determinant_ne_zero (distinct : Distinct later earlier) :
    determinant later earlier ≠ 0 :=
  mul_ne_zero (mul_ne_zero (mul_self_ne_zero.mpr distinct.later_ne_zero)
    (mul_self_ne_zero.mpr distinct.earlier_ne_zero)) (sub_ne_zero.mpr distinct.ne)

/-- The model goes through the later sample. -/
lemma Distinct.interpolates (distinct : Distinct later earlier) :
    leading r₀ later earlier / 3 * later.scale ^ 3 + middle r₀ later earlier / 2 * later.scale ^ 2
      = later.norm - r₀ + r₀ * later.scale := by
  have nonzero := distinct.determinant_ne_zero
  unfold leading middle earlierExcess laterExcess
  field_simp
  unfold determinant
  ring

lemma Distinct.minimizer?_eq (distinct : Distinct later earlier) :
    minimizer? (r₀ : Extended) (extend later) (extend earlier) = do
      return least (← minimizers (leading r₀ later earlier : Extended)
        (middle r₀ later earlier : Extended) ((-r₀ : ℝ) : Extended)) := by
  have nonzero := distinct.determinant_ne_zero
  have quotient (a : ℝ) := quotient_coe a nonzero
  unfold leading middle earlierExcess laterExcess
  unfold determinant at nonzero quotient ⊢
  simp only [minimizer?, extend, square_coe, sub_coe, mul_coe, add_coe, neg_coe, one_eq_coe,
    zero_eq_coe, Nat.cast_ofNat, ofNat_eq_coe, coe_beq_coe, isFinite_coe, decide_eq_false nonzero,
    Bool.not_true, Bool.or_self, Bool.false_eq_true, if_false, bind, Except.bind, quotient]

/-- No quotient is refused where the samples are distinct, and the least minimizer is found if there
is one. -/
lemma Distinct.minimizer?_coe (distinct : Distinct later earlier) (r₀ : ℝ) : ∃ o : Option ℝ,
    minimizer? (r₀ : Extended) (extend later) (extend earlier) = .ok (o.map ofReal) ∧
      (o = none → ∀ s, ¬ IsModelMinimizer r₀ later earlier s) ∧
      ∀ m ∈ o, IsModelMinimizer r₀ later earlier m ∧
        ∀ s, IsModelMinimizer r₀ later earlier s → m ≤ s := by
  obtain ⟨l, run, mem⟩ := minimizers_coe (leading r₀ later earlier) (middle r₀ later earlier) (-r₀)
  refine ⟨least l, ?_, fun none s minimizer => ?_, fun m found => ⟨?_, fun s minimizer => ?_⟩⟩
  · rw [distinct.minimizer?_eq, run, ← least_ofReal]
    rfl
  · have listed := (mem s).mpr minimizer
    simp [least_eq_none_iff.mp none] at listed
  · exact (mem m).mp (least_mem found)
  · exact least_le found ((mem s).mpr minimizer)

/-- Without finite norms there is no model. -/
lemma minimizer?_of_not_finite (b g : ℝ) {rb rg : Extended}
    (infinite : ¬ Scalar.isFinite (rb + rg) = true) :
    minimizer? (r₀ : Extended) ⟨b, rb⟩ ⟨g, rg⟩ = .ok none := by
  simp [minimizer?, infinite]

/-- If the later sample lies above the norm at zero, the derivative is positive at two thirds of its
scale. -/
lemma Distinct.derivative_pos (distinct : Distinct later earlier) (positive : 0 < r₀)
    (scale : 0 < later.scale) (rejected : r₀ < later.norm) :
    0 < leading r₀ later earlier * (2 / 3 * later.scale * (2 / 3 * later.scale))
      + middle r₀ later earlier * (2 / 3 * later.scale) + -r₀ := by
  set a := leading r₀ later earlier
  set b := middle r₀ later earlier
  set s := later.scale
  have above : r₀ * s < s * (a / 3 * s ^ 2 + b / 2 * s) := by
    have value : a / 3 * s ^ 3 + b / 2 * s ^ 2 = later.norm - r₀ + r₀ * s := distinct.interpolates
    linarith
  have slope : r₀ < a / 3 * s ^ 2 + b / 2 * s := lt_of_mul_lt_mul_left (by linarith) scale.le
  linarith

end Model

/-- A quadratic polynomial that is negative at zero and positive at `t` has a root between, where it
increases. -/
lemma exists_root_increasing {a b c t : ℝ} (negative : c < 0) (t_pos : 0 < t)
    (positive : 0 < a * (t * t) + b * t + c) :
    ∃ s, a * (s * s) + b * s + c = 0 ∧ 0 < s ∧ s < t ∧ 0 < 2 * a * s + b := by
  have continuous : Continuous fun s : ℝ => a * (s * s) + b * s + c := by fun_prop
  obtain ⟨s, ⟨s_pos, s_lt⟩, root⟩ := intermediate_value_Ioo t_pos.le continuous.continuousOn
    (show (0 : ℝ) ∈ Set.Ioo _ _ from ⟨by simpa using negative, positive⟩)
  refine ⟨s, root, s_pos, s_lt, ?_⟩
  -- The slopes of the chords from `s` to zero and to `t` are positive, and the derivative at `s`
  -- lies between them.
  have left : 0 < a * s + b := pos_of_mul_pos_right (by linarith : 0 < s * (a * s + b)) s_pos.le
  have right : 0 < a * (s + t) + b := by
    have difference : 0 < (t - s) * (a * (s + t) + b) := by linarith
    exact pos_of_mul_pos_right difference (sub_pos.mpr s_lt).le
  rcases le_total 0 a with convex | concave
  · linarith [mul_nonneg convex s_pos.le]
  · linarith [mul_nonpos_of_nonpos_of_nonneg concave (sub_pos.mpr s_lt).le]

/-- A cubic step from a rejected sample divides by nothing that is zero, and shrinks the scale to
two thirds at least. -/
theorem nextScale_le {r₀ b g : ℝ} (positive : 0 < r₀) (b_pos : 0 < b) (b_lt : b < g) (b_le : b ≤ 1)
    {rb : Extended} (rejected : ¬ rb ≤ (r₀ : Extended)) (rg : Extended) :
    ∃ s : ℝ, nextScale (r₀ : Extended) ⟨b, rb⟩ ⟨g, rg⟩ = .ok (s : Extended) ∧ 0 < s ∧
      s ≤ 2 / 3 * b := by
  by_cases finite : Scalar.isFinite (rb + rg) = true
  · obtain ⟨⟨rb, rfl⟩, rg, rfl⟩ := isFinite_of_isFinite_add finite
    have distinct : Distinct ⟨b, rb⟩ ⟨g, rg⟩ := ⟨b_pos.ne', (b_pos.trans b_lt).ne', b_lt.ne⟩
    have above : r₀ < rb := not_le.mp (by simpa using rejected)
    obtain ⟨s, root, s_pos, s_lt, increasing⟩ := exists_root_increasing (neg_lt_zero.mpr positive)
      (by positivity) (distinct.derivative_pos positive b_pos above)
    have minimizer : IsModelMinimizer r₀ ⟨b, rb⟩ ⟨g, rg⟩ s :=
      ⟨root, s_pos, s_lt.trans_le (by linarith), increasing⟩
    obtain ⟨o, run, none, some⟩ := distinct.minimizer?_coe r₀
    cases o with
    | none => exact absurd minimizer (none rfl s)
    | some m =>
      obtain ⟨⟨-, m_pos, -, -⟩, least⟩ := some m rfl
      exact ⟨m, congrArg (Except.map _) run, m_pos, (least s minimizer).trans s_lt.le⟩
  · refine ⟨1 / 2 * b, ?_, by positivity, by linarith⟩
    rw [nextScale, minimizer?_of_not_finite b g finite]
    simp [Except.map, orHalf]

end Cubic

end NewtonKrylov
