import NewtonKrylov.Proofs.Guard

/-!
# What the guard hands on

From a state inside the bounds, in exact arithmetic, the guard hands on the first of its shortened
steps that leads to a state inside. If there is none it hands on the last one, without a look at
where it leads. As the states inside are a convex set, a part of a step stays inside if the whole
step does. So the step that is handed on and all its parts stay inside exactly if the last of the
steps does that the guard may try: of this step all the others are multiples.

The state to begin with is moved inside the bounds, and is left alone if it is inside already.
-/

namespace NewtonKrylov

namespace Bounds

variable {g : Bounds ℝ} {x dx : Tensor ℝ} {ds : Vec ℝ} {j : ℕ}

/-- The `j`-th shortening of a step is the first one that leads from `x` to a state inside the
bounds, or the last one if there is none before it. -/
structure IsFirstInside (g : Bounds ℝ) (x dx : Tensor ℝ) (j : ℕ) : Prop where
  atMost : j ≤ g.maxRelax
  outside : ∀ i < j, ¬ g.Allows x (dx.smul (g.relax ^ i))
  inside : j < g.maxRelax → g.Allows x (dx.smul (g.relax ^ j))

/-- A step that leads to states of the same shape can be shortened. -/
lemma Suits.exists_shorten (suits : g.Suits x.shape) (moves : Moves x dx ds) (m : ℕ) :
    ∃ d, g.shorten x m dx = .ok d := by
  induction m generalizing dx ds with
  | zero => exact ⟨dx, rfl⟩
  | succ m ih =>
    have moved := moves 1
    rw [Tensor.smul_one] at moved
    obtain ⟨outside, test, -⟩ := suits.exists_outside
      (x := ⟨x.shape, List.zipWith (· - ·) x.entries (Vec.smul 1 ds)⟩) rfl
    rw [shorten, moved, ok_bind, test, ok_bind]
    split_ifs
    · exact ih (moves.smul g.relax)
    · exact ⟨dx, rfl⟩

/-- The guard hands on the first of its steps that leads inside. -/
lemma Suits.exists_step (suits : g.Suits x.shape) (moves : Moves x dx ds) :
    ∃ j, g.IsFirstInside x dx j ∧ g.guard.step x dx = .ok (dx.smul (g.relax ^ j)) := by
  obtain ⟨d, short⟩ := suits.exists_shorten moves g.maxRelax
  obtain ⟨j, atMost, rfl, outside, inside⟩ := exists_shortened short
  exact ⟨j, ⟨atMost, outside, inside⟩, short⟩

/-- The parts of the step that is handed on stay inside exactly if the last of the steps does that
the guard may try. -/
lemma IsFirstInside.allows_iff (first : g.IsFirstInside x dx j) (suits : g.Suits x.shape)
    (moves : Moves x dx ds) (nonneg : 0 ≤ g.relax) (le_one : g.relax ≤ 1)
    (contains : g.Contains x) :
    (∀ c, 0 ≤ c → c ≤ 1 → g.Allows x ((dx.smul (g.relax ^ j)).smul c)) ↔
      g.Allows x (dx.smul (g.relax ^ g.maxRelax)) := by
  constructor
  · intro parts
    have last := parts (g.relax ^ (g.maxRelax - j)) (pow_nonneg nonneg _)
      (pow_le_one₀ nonneg le_one)
    rwa [Tensor.smul_smul, pow_sub_mul_pow g.relax first.atMost] at last
  · intro last c c_nonneg c_le_one
    have whole : g.Allows x (dx.smul (g.relax ^ j)) := by
      rcases first.atMost.lt_or_eq with before | same
      · exact first.inside before
      · rwa [same]
    exact suits.allows_smul (moves.smul _) contains whole c_nonneg c_le_one

/-- Bounds with a factor between zero and one, and any number of trials. From a state inside, the
guard hands on the first of its steps that leads inside, or the last one, and all parts of this step
stay inside exactly if the last step that it may try does. It moves every state inside the bounds,
and leaves alone exactly those that are inside. -/
theorem guard_keeps_inside {shape : List ℕ} (suits : g.Suits shape) (nonneg : 0 ≤ g.relax)
    (le_one : g.relax ≤ 1) :
    (∀ x dx : Tensor ℝ, x.shape = shape → dx.SpreadsOver shape → g.Contains x →
      ∃ j, g.IsFirstInside x dx j ∧ g.guard.step x dx = .ok (dx.smul (g.relax ^ j)) ∧
        ((∀ c, 0 ≤ c → c ≤ 1 → g.Allows x ((dx.smul (g.relax ^ j)).smul c)) ↔
          g.Allows x (dx.smul (g.relax ^ g.maxRelax)))) ∧
    ∀ y : Tensor ℝ, y.shape = shape → y.Full →
      ∃ z, g.guard.value y = .ok z ∧ z.shape = shape ∧ g.Contains z ∧
        (z = y ↔ g.Contains y) := by
  constructor
  · rintro x dx rfl spreads contains
    have moves := moves_of_spreadsOver spreads
    obtain ⟨j, first, step⟩ := suits.exists_step moves
    exact ⟨j, first, step, first.allows_iff suits moves nonneg le_one contains⟩
  · intro y y_shape full
    obtain ⟨z, clamped, z_shape, inside⟩ := suits.exists_clamped y_shape
    refine ⟨z, clamped, z_shape, inside, ?_, ?_⟩
    · rintro rfl
      exact inside
    · intro contains
      exact Except.ok.inj (clamped.symm.trans (suits.clamp_eq_self y_shape full contains))

/-! ### A step of one size in all entries -/

/-- One lower bound for all entries, and an upper bound for each of two. -/
noncomputable def box : Bounds ℝ where
  lower := some (.ofScalar 0)
  upper := some (.ofVec [1, 2])
  relax := 1 / 2
  maxRelax := 1

lemma hasLimits_box : box.HasLimits 2 (some [0, 0]) (some [1, 2]) :=
  ⟨.some (.number 0), .some (.entries rfl), by
      rintro _ ⟨rfl⟩ _ ⟨rfl⟩
      norm_num⟩

lemma box_contains_iff (a b : ℝ) :
    box.Contains (.ofVec [a, b]) ↔ (0 ≤ a ∧ 0 ≤ b) ∧ (a ≤ 1 ∧ b ≤ 2) := by
  rw [hasLimits_box.contains_iff rfl]
  constructor
  · intro within
    simpa [Tensor.ofVec] using And.intro (within.lower _ rfl) (within.upper _ rfl)
  · intro inside
    refine ⟨?_, ?_⟩
    · rintro _ ⟨rfl⟩
      simpa [Tensor.ofVec] using inside.1
    · rintro _ ⟨rfl⟩
      simpa [Tensor.ofVec] using inside.2

/-- A step of one size in both entries. -/
lemma box_allows_iff (a b d : ℝ) :
    box.Allows (.ofVec [a, b]) (.ofScalar d) ↔ box.Contains (.ofVec [a - d, b - d]) := by
  have moved := (IsBound.number (n := 2) d).combine (fun a b => a - b) (x := .ofVec [a, b]) rfl
  simp only [Allows, moved, Except.ok.injEq, exists_eq_left']
  rfl

/-- The step leads out, and half of it stays inside. -/
theorem guard_keeps_inside_half :
    box.guard.step (.ofVec [1 / 2, 1]) (.ofScalar (-1)) = .ok (.ofScalar (-1 / 2)) ∧
      (∀ c, 0 ≤ c → c ≤ 1 →
        box.Allows (.ofVec [1 / 2, 1]) ((Tensor.ofScalar (-1 / 2)).smul c)) ∧
      ∃ z, box.guard.value (.ofVec [-1, 1]) = .ok z ∧ box.Contains z ∧ z ≠ .ofVec [-1, 1] := by
  obtain ⟨steps, values⟩ := guard_keeps_inside hasLimits_box.suits (by norm_num [box])
    (by norm_num [box])
  obtain ⟨j, first, step, parts⟩ := steps (.ofVec [1 / 2, 1]) (.ofScalar (-1)) rfl
    (IsBound.number _).spreadsOver ((box_contains_iff _ _).mpr (by norm_num))
  obtain ⟨z, clamped, -, inside, same⟩ := values (.ofVec [-1, 1]) rfl (Tensor.full_ofVec _)
  have scaled (c d : ℝ) : (Tensor.ofScalar d).smul c = .ofScalar (c * d) := rfl
  have outside : j ≠ 0 := by
    rintro rfl
    have leads := first.inside one_pos
    rw [scaled, box_allows_iff, box_contains_iff] at leads
    norm_num at leads
  obtain rfl : j = 1 := le_antisymm first.atMost (Nat.one_le_iff_ne_zero.mpr outside)
  have half : (Tensor.ofScalar (-1 : ℝ)).smul (box.relax ^ 1) = .ofScalar (-1 / 2) := by
    rw [scaled]
    norm_num [box]
  rw [half] at step parts
  refine ⟨step, parts.mpr ?_, z, clamped, inside, ?_⟩
  · change box.Allows _ ((Tensor.ofScalar (-1)).smul (box.relax ^ 1))
    rw [half, box_allows_iff, box_contains_iff]
    norm_num
  · intro kept
    have contains := same.mp kept
    rw [box_contains_iff] at contains
    norm_num at contains

end Bounds

end NewtonKrylov
