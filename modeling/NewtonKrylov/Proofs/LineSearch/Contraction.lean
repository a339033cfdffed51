import NewtonKrylov.Proofs.LineSearch.Cubic
import NewtonKrylov.Proofs.LineSearch.Run

/-!
# A line search contracts

The cubic step by itself may well enlarge the scale. In a search it does not, because the latest
sample was rejected: along the whole run each scale is at most two thirds of the one before, and the
first is at most one half. So a search finds descent wherever there is some near zero. As long as a
scale is too large it changes by more than half of itself, so a small tolerance cannot end the
search, and enough steps reach the scales where the norm has decreased.
-/

namespace NewtonKrylov

namespace LineSearch

open Extended

/-- A trial scale `b` after the scale `g`. -/
structure Contracts (g b : ℝ) : Prop where
  pos : 0 < b
  le_half : b ≤ 1 / 2
  le_two_thirds : b ≤ 2 / 3 * g

lemma Contracts.lt {g b : ℝ} (contracts : Contracts g b) : b < g := by
  linarith [contracts.pos, contracts.le_two_thirds]

/-- Consecutive samples of a search for descent of `φ`. -/
def Shrinks (φ : Extended → Extended) (before last : Sample Extended) : Prop :=
  ∃ g b : ℝ, before.scale = g ∧ last = ⟨b, φ b⟩ ∧ Contracts g b

/-! ### One step -/

lemma quadraticScale_le {r₀ : ℝ} (positive : 0 < r₀) {r₁ : Extended}
    (increased : ¬ r₁ ≤ (r₀ : Extended)) :
    ∃ s : ℝ, quadraticScale (r₀ : Extended) r₁ = .ok (s : Extended) ∧ Contracts 1 s := by
  by_cases finite : Scalar.isFinite r₁ = true
  · obtain ⟨r₁, rfl⟩ := isFinite_iff.mp finite
    have larger : r₀ < r₁ := not_le.mp (by simpa using increased)
    have r₁_pos : 0 < r₁ := positive.trans larger
    have half : r₀ / (2 * r₁) ≤ 1 / 2 := by
      rw [div_le_div_iff₀ (by positivity) two_pos]
      linarith
    refine ⟨r₀ / (2 * r₁), ?_, by positivity, half, by linarith⟩
    simp [quadraticScale, quotient_coe _ (mul_ne_zero two_ne_zero r₁_pos.ne')]
  · refine ⟨1 / 2, ?_, by norm_num, le_rfl, by norm_num⟩
    simp [quadraticScale, finite]

lemma Shrinks.step {φ : Extended → Extended} {r₀ : ℝ} (positive : 0 < r₀)
    {before last : Sample Extended} (shrinks : Shrinks φ before last)
    (rejected : ¬ last.norm ≤ (r₀ : Extended)) :
    ∃ s r, Cubic.nextScale (r₀ : Extended) last before = .ok s ∧
      (Except.ok (φ s) : Except Error Extended) = .ok r ∧ Shrinks φ last ⟨s, r⟩ := by
  obtain ⟨_, rg⟩ := before
  obtain ⟨g, b, rfl, rfl, contracts⟩ := shrinks
  obtain ⟨s, next, s_pos, s_le⟩ := Cubic.nextScale_le positive contracts.pos contracts.lt
    (by linarith [contracts.le_half]) rejected rg
  have le_half : s ≤ 1 / 2 := by linarith [contracts.le_half]
  exact ⟨s, φ s, next, rfl, b, s, rfl, rfl, s_pos, le_half, s_le⟩

/-! ### A whole run -/

variable (φ : Extended → Extended)

/-- A search never fails, and its scales contract up to the last one. -/
lemma search_shrinks {r₀ : ℝ} (positive : 0 < r₀) {r₁ : Extended}
    (increased : ¬ r₁ ≤ (r₀ : Extended)) (tolerance : Extended) (steps : ℕ) :
    ∃ out, search (m := Except Error) (fun s => .ok (φ s)) (r₀ : Extended) r₁
        (.ofNumber tolerance) (.ok steps) = .ok out ∧
      (⟨1, r₁⟩ :: out.trials).IsChain (Shrinks φ) ∧
      Ended (r₀ : Extended) tolerance steps ⟨1, r₁⟩ out := by
  obtain ⟨s, first, contracts⟩ := quadraticScale_le positive increased
  exact search_run (P := Shrinks φ)
    (fun before last shrinks continues => shrinks.step positive continues.1) first rfl
    ⟨1, s, rfl, rfl, contracts⟩ steps

variable {φ}

/-- The trials of a search are at real scales, which contract. -/
lemma exists_scales {full : Sample Extended} {g : ℝ} (scale : full.scale = g)
    {trials : List (Sample Extended)} (chain : (full :: trials).IsChain (Shrinks φ)) :
    ∃ scales : List ℝ, trials = scales.map (fun s => ⟨s, φ s⟩) ∧
      (g :: scales).IsChain Contracts := by
  induction trials generalizing full g with
  | nil => exact ⟨[], rfl, .singleton g⟩
  | cons t trials ih =>
    obtain ⟨⟨g', b, scale', rfl, contracts⟩, rest⟩ := List.isChain_cons_cons.mp chain
    obtain ⟨scales, eq, contract⟩ := ih rfl rest
    obtain rfl : g = g' := EReal.coe_injective (by injection scale.symm.trans scale')
    exact ⟨b :: scales, by rw [eq, List.map_cons], contract.cons_cons contracts⟩

section Scales

variable {scales : List ℝ} {g : ℝ}

lemma contracts_of_mem (chain : (g :: scales).IsChain Contracts) :
    ∀ s ∈ scales, 0 < s ∧ s ≤ 1 / 2 := by
  induction scales generalizing g with
  | nil => simp
  | cons b scales ih =>
    obtain ⟨contracts, rest⟩ := List.isChain_cons_cons.mp chain
    exact List.forall_mem_cons.mpr ⟨⟨contracts.pos, contracts.le_half⟩, ih rest⟩

/-- The scales lie below a geometric sequence. -/
lemma scale_le (chain : (g :: scales).IsChain Contracts) (j : ℕ) (h : j < scales.length) :
    scales[j] ≤ 1 / 2 * (2 / 3) ^ j := by
  induction j with
  | zero => simpa using (contracts_of_mem chain _ (List.getElem_mem h)).2
  | succ j ih =>
    have contracts : Contracts scales[j] scales[j + 1] := List.isChain_iff_getElem.mp chain.tail j h
    calc scales[j + 1] ≤ 2 / 3 * scales[j] := contracts.le_two_thirds
      _ ≤ 2 / 3 * (1 / 2 * (2 / 3) ^ j) := by gcongr; exact ih (Nat.lt_of_succ_lt h)
      _ = 1 / 2 * (2 / 3) ^ (j + 1) := by ring

end Scales

variable (φ)

/-- A search from a step that did not decrease the norm divides by nothing that is zero. Its trial
scales lie between zero and one half, and each is at most two thirds of the one before. -/
theorem search_contracts {r₀ : ℝ} (positive : 0 < r₀) {r₁ : Extended}
    (increased : ¬ r₁ ≤ (r₀ : Extended)) (tolerance : Extended) (steps : ℕ) :
    ∃ out, ∃ scales : List ℝ,
      search (m := Except Error) (fun s => .ok (φ s)) (r₀ : Extended) r₁ (.ofNumber tolerance)
          (.ok steps) = .ok out ∧
        out.trials = scales.map (fun s => ⟨s, φ s⟩) ∧ (∀ s ∈ scales, 0 < s ∧ s ≤ 1 / 2) ∧
        scales.IsChain (fun b a => a ≤ 2 / 3 * b) ∧ scales.Pairwise (· > ·) ∧
        ∀ (j : ℕ) (h : j < scales.length), scales[j] ≤ 1 / 2 * (2 / 3) ^ j := by
  obtain ⟨out, run, chain, -⟩ := search_shrinks φ positive increased tolerance steps
  obtain ⟨scales, trials, contract⟩ := exists_scales rfl chain
  refine ⟨out, scales, run, trials, contracts_of_mem contract, ?_, ?_, scale_le contract⟩
  · exact contract.tail.imp fun _ _ contracts => contracts.le_two_thirds
  · exact List.isChain_iff_pairwise.mp (contract.tail.imp fun _ _ contracts => contracts.lt)

/-- The norm of a residual that is defined only for small scales, and decreases there. -/
noncomputable def decreasingBelow (δ : ℝ) (s : Extended) : Extended :=
  if s ≤ (δ : Extended) then 1 - s else .number ⊤

theorem search_contracts_decreasingBelow : ∃ out, ∃ scales : List ℝ,
    search (m := Except Error) (fun s => .ok (decreasingBelow (1 / 10) s)) ((1 : ℝ) : Extended) .nan
        (.ofNumber 0) (.ok 50) = .ok out ∧
      out.trials = scales.map (fun s => ⟨s, decreasingBelow (1 / 10) s⟩) ∧
      (∀ s ∈ scales, 0 < s ∧ s ≤ 1 / 2) ∧ scales.IsChain (fun b a => a ≤ 2 / 3 * b) ∧
      scales.Pairwise (· > ·) ∧
      ∀ (j : ℕ) (h : j < scales.length), scales[j] ≤ 1 / 2 * (2 / 3) ^ j :=
  search_contracts _ one_pos (show ¬ Extended.nan ≤ ((1 : ℝ) : Extended) from id) 0 50

/-- If the norm does not exceed `r₀` at small scales, a search whose tolerance is a third of their
bound at most ends at such a norm, as soon as its steps reach below that bound. -/
theorem search_finds_descent {r₀ : ℝ} (positive : 0 < r₀) {r₁ : Extended}
    (increased : ¬ r₁ ≤ (r₀ : Extended)) {δ : ℝ}
    (descent : ∀ s : ℝ, 0 < s → s ≤ δ → φ s ≤ (r₀ : Extended)) {tolerance : Extended}
    (small : tolerance ≤ ((δ / 3 : ℝ) : Extended)) {steps : ℕ}
    (enough : 1 / 2 * (2 / 3) ^ steps ≤ δ) :
    ∃ out, ∃ s : ℝ,
      search (m := Except Error) (fun s => .ok (φ s)) (r₀ : Extended) r₁ (.ofNumber tolerance)
          (.ok steps) = .ok out ∧
        out.last = ⟨s, φ s⟩ ∧ φ s ≤ (r₀ : Extended) ∧ 0 < s ∧ s ≤ 1 / 2 := by
  obtain ⟨out, run, chain, ended⟩ := search_shrinks φ positive increased tolerance steps
  obtain ⟨g, s, before, last, contracts⟩ := Outcome.isChain_last chain
  refine ⟨out, s, run, last, ?_, contracts.pos, contracts.le_half⟩
  -- If the last norm is too large, then so is the last scale, and the change to it was above the
  -- tolerance.
  by_contra rejected
  have large : δ < s := lt_of_not_ge fun near => rejected (descent s contracts.pos near)
  have changes : δ / 3 < |g - s| := by
    have change : g - s ≤ |g - s| := le_abs_self _
    linarith [contracts.le_two_thirds, contracts.pos]
  have continues : Continues (r₀ : Extended) tolerance (out.previous ⟨1, r₁⟩) out.last := by
    rw [last]
    refine ⟨rejected, ?_⟩
    rw [before, sub_coe, abs_coe]
    exact Extended.lt_of_le_of_lt small (by simpa using changes)
  -- So all steps are used up, and the last scale is as small as the bound of all of them says.
  obtain ⟨scales, trials, contract⟩ := exists_scales rfl chain
  have at_last : out.trials[steps]? = some out.last := by
    rw [← ended.steps_eq continues, Outcome.trials, List.getElem?_concat_length]
  rw [trials, List.getElem?_map, last] at at_last
  obtain ⟨s', found, eq⟩ := Option.map_eq_some_iff.mp at_last
  obtain rfl : s' = s := by
    injection eq with eq _
    exact EReal.coe_injective (by injection eq)
  obtain ⟨h, rfl⟩ := List.getElem?_eq_some_iff.mp found
  exact absurd ((scale_le contract steps h).trans enough) (not_le.mpr large)

/-- The full step and the first trials have infinite norms, so the scale is halved until there is
descent. -/
theorem search_finds_descent_decreasingBelow : ∃ out, ∃ s : ℝ,
    search (m := Except Error) (fun s => .ok (decreasingBelow (1 / 10) s)) ((1 : ℝ) : Extended)
        (.number ⊤) (.ofNumber ((1 / 30 : ℝ) : Extended)) (.ok 4) = .ok out ∧
      out.last = ⟨s, decreasingBelow (1 / 10) s⟩ ∧
      decreasingBelow (1 / 10) s ≤ ((1 : ℝ) : Extended) ∧ 0 < s ∧ s ≤ 1 / 2 := by
  have increased : ¬ Extended.number ⊤ ≤ ((1 : ℝ) : Extended) := fun le =>
    EReal.coe_ne_top 1 (top_le_iff.mp le)
  have descent (s : ℝ) (s_pos : 0 < s) (s_le : s ≤ 1 / 10) :
      decreasingBelow (1 / 10) s ≤ ((1 : ℝ) : Extended) := by
    rw [decreasingBelow, if_pos (by simpa using s_le)]
    simpa using s_pos.le
  exact search_finds_descent _ one_pos increased descent (by norm_num) (by norm_num)

end LineSearch

end NewtonKrylov
