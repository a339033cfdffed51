import NewtonKrylov.Proofs.Krylov.Residual

/-!
# No breakdown

For an invertible linear operator a cycle does not break down, in whatever pattern the directions
are chosen. `Adapted` is the invariant: the directions run through the Krylov spaces of the
residual, each of them new, and the columns run through the images of these spaces.

That the next direction is new depends on where it comes from. The last column is new because
otherwise the images of the Krylov space would not leave it, and then nothing would be left of the
residual. The residual is new because its norm has just decayed: what the last step took from it is
a multiple of the last column, and not zero.
-/

namespace NewtonKrylov

open Vec
open scoped InnerProductSpace

variable {n : ℕ}

namespace Cycle

variable {A : Space n →ₗ[ℝ] Space n} {r₀ : Space n} {ws : Workspace ℝ} {p : Progress ℝ}
  {norms : List ℝ}

/-- The directions of a work space run through the Krylov spaces of the residual `r₀`, and the
columns through their images. -/
structure Adapted (A : Space n →ₗ[ℝ] Space n) (r₀ : Space n) (ws : Workspace ℝ) : Prop where
  directions : ∀ j ≤ ws.factorization.size,
    spanBelow (ws.direction n) j = krylov A r₀ j
  columns : ∀ j ≤ ws.factorization.size,
    spanBelow (ws.column n) j = (krylov A r₀ j).map A
  new : ∀ j < ws.factorization.size, ws.direction n j ∉ krylov A r₀ j

lemma adapted_empty (A : Space n →ₗ[ℝ] Space n) (r₀ : Space n) (capacity : ℕ) :
    Adapted A r₀ (.empty n capacity) where
  directions := by
    intro j none
    obtain rfl : j = 0 := by simpa [Workspace.empty] using none
    rw [spanBelow_zero, krylov_zero]
  columns := by
    intro j none
    obtain rfl : j = 0 := by simpa [Workspace.empty] using none
    rw [spanBelow_zero, krylov_zero, Submodule.map_bot]
  new := by simp [Workspace.empty]

/-! ### What is left of the residual -/

namespace Adapted

lemma remainder_mem (S : Adapted A r₀ ws) {j : ℕ} (atMost : j ≤ ws.factorization.size) :
    ws.remainder n r₀ j ∈ krylov A r₀ (j + 1) := by
  apply Submodule.sub_mem
  · exact mem_krylov A r₀ (Nat.succ_pos j)
  · apply map_krylov_le
    rw [← S.columns j atMost]
    exact combination_mem_spanBelow _ _ j

lemma column_mem (S : Adapted A r₀ ws) {j : ℕ} (below : j < ws.factorization.size) :
    ws.column n j ∈ (krylov A r₀ (j + 1)).map A := by
  rw [← S.columns (j + 1) below]
  exact mem_spanBelow _ (Nat.lt_succ_self j)

/-- The last column is new, as long as something is left of the residual. -/
theorem column_not_mem (S : Adapted A r₀ ws) (P : Projected A r₀ ws p norms)
    (injective : Function.Injective A) {k : ℕ} (size : ws.factorization.size = k + 1)
    (left : ws.remainder n r₀ (k + 1) ≠ 0) : ws.column n k ∉ krylov A r₀ (k + 1) := by
  intro old
  have columns := S.columns (k + 1) size.ge
  have stays : (krylov A r₀ (k + 1)).map A ≤ krylov A r₀ (k + 1) := by
    rw [← columns, spanBelow_succ, S.columns k (by omega)]
    apply sup_le
    · exact map_krylov_le A r₀ k
    · exact (Submodule.span_singleton_le_iff_mem _ _).mpr old
  have all := map_eq_of_le injective stays
  have reached : ws.remainder n r₀ (k + 1) ∈ spanBelow (ws.column n) (k + 1) := by
    rw [columns]
    apply Submodule.sub_mem
    · rw [all]
      exact mem_krylov A r₀ (Nat.succ_pos k)
    · rw [← columns]
      exact combination_mem_spanBelow _ _ _
  rw [← size] at reached left
  exact left (P.remainder_eq_zero reached)

/-- What is left of the residual is new, if the last step has taken something from it. -/
theorem remainder_not_mem (S : Adapted A r₀ ws) (P : Projected A r₀ ws p norms)
    (injective : Function.Injective A) {k : ℕ} (size : ws.factorization.size = k + 1)
    (left : ws.remainder n r₀ (k + 1) ≠ 0)
    (decays : ws.remainder n r₀ (k + 1) ≠ ws.remainder n r₀ k) :
    ws.remainder n r₀ (k + 1) ∉ krylov A r₀ (k + 1) := by
  intro old
  have taken := ws.remainder_succ r₀ k
  have nonzero : ws.coefficients.getD k 0 ≠ 0 := by
    intro zero
    rw [zero, zero_smul, sub_zero] at taken
    exact decays taken
  have multiple : ws.coefficients.getD k 0 • ws.column n k ∈ krylov A r₀ (k + 1) := by
    have difference : ws.coefficients.getD k 0 • ws.column n k
        = ws.remainder n r₀ k - ws.remainder n r₀ (k + 1) := by
      rw [taken]
      module
    rw [difference]
    exact Submodule.sub_mem _ (S.remainder_mem (by omega)) old
  exact S.column_not_mem P injective size left
    ((Submodule.smul_mem_iff _ nonzero).mp multiple)

end Adapted

/-! ### The next direction -/

/-- Where the next direction comes from, and when. -/
lemma Projected.chosen_cases {F : Space n → Space n} (P : Projected F r₀ ws p norms) (ν : ℝ) :
    (toSpace n (chosen ν p (Projected.current n ws r₀)).2
        = p.norm⁻¹ • ws.remainder n r₀ ws.factorization.size ∧
      (ws.factorization.size = 0 ∨ p.norm ≤ ν * p.previousNorm)) ∨
    (ws.factorization.size ≠ 0 ∧
      toSpace n (chosen ν p (Projected.current n ws r₀)).2
        = ws.column n (ws.factorization.size - 1)) := by
  have residual : toSpace n (divBy (Projected.current n ws r₀) p.norm)
      = p.norm⁻¹ • ws.remainder n r₀ ws.factorization.size := by
    rw [toSpace_divBy, Projected.current, toSpace_ofSpace]
  by_cases empty : ws.factorization.size = 0
  · rw [chosen_of_none (by rw [P.last, if_pos empty])]
    exact Or.inl ⟨residual, Or.inl empty⟩
  · rw [chosen_of_some (by rw [P.last, if_neg empty])]
    split_ifs with decays
    · exact Or.inl ⟨residual, Or.inr decays⟩
    · exact Or.inr ⟨empty, rfl⟩

/-- The next direction is in the next Krylov space, but not in this one. -/
theorem Adapted.chosen_new (S : Adapted A r₀ ws) (P : Projected A r₀ ws p norms)
    (injective : Function.Injective A) {ν : ℝ} (small : ν < 1)
    (left : ws.remainder n r₀ ws.factorization.size ≠ 0) :
    toSpace n (chosen ν p (Projected.current n ws r₀)).2
        ∈ krylov A r₀ (ws.factorization.size + 1) ∧
      toSpace n (chosen ν p (Projected.current n ws r₀)).2
        ∉ krylov A r₀ ws.factorization.size := by
  have positive : 0 < p.norm := by
    rw [P.norm]
    exact norm_pos_iff.mpr left
  have scale : p.norm⁻¹ ≠ 0 := inv_ne_zero positive.ne'
  -- A residual is in the next space by the invariant, and the last column is the image of a point
  -- of this one. That the residual is new needs a threshold below one: it was taken because it has
  -- decayed.
  rcases P.chosen_cases ν with ⟨residual, reason⟩ | ⟨nonempty, column⟩
  · rw [residual, Submodule.smul_mem_iff _ scale, Submodule.smul_mem_iff _ scale]
    refine ⟨S.remainder_mem le_rfl, ?_⟩
    rcases Nat.eq_zero_or_eq_succ_pred ws.factorization.size with none | size
    · rw [none, krylov_zero, Submodule.mem_bot]
      rwa [none] at left
    · rw [size] at left ⊢
      apply S.remainder_not_mem P injective size left
      intro stagnates
      have decays := reason.resolve_left (by omega)
      have same : p.previousNorm = p.norm := by
        rw [P.previous, P.norm, size, Nat.succ_sub_one, stagnates]
      rw [same] at decays
      -- A residual that stagnates would have to be smaller than itself.
      nlinarith
  · rw [column]
    obtain ⟨k, size⟩ := Nat.exists_eq_succ_of_ne_zero nonempty
    rw [size] at left ⊢
    rw [Nat.succ_sub_one]
    refine ⟨?_, S.column_not_mem P injective size left⟩
    exact map_krylov_le A r₀ (k + 1) (S.column_mem (by omega))

/-! ### The next column -/

section Column

variable {j : ℕ}

lemma image_not_mem (injective : Function.Injective A) (new : ws.direction n j ∉ krylov A r₀ j) :
    A (ws.direction n j) ∉ (krylov A r₀ j).map A := by
  rintro ⟨v, inside, same⟩
  rw [injective same] at inside
  exact new inside

/-- The image of a new direction has a component along its own column. -/
theorem Projected.pivot_ne_zero (P : Projected A r₀ ws p norms) (injective : Function.Injective A)
    (below : j < ws.factorization.size)
    (columns : spanBelow (ws.column n) j = (krylov A r₀ j).map A)
    (new : ws.direction n j ∉ krylov A r₀ j) : ws.factorization.entry j j ≠ 0 := by
  intro zero
  have image := P.image_direction_eq below
  rw [zero, zero_smul, add_zero] at image
  apply image_not_mem injective new
  rw [image, ← columns]
  exact combination_mem_spanBelow _ _ j

lemma Projected.columns_succ (P : Projected A r₀ ws p norms) (injective : Function.Injective A)
    (below : j < ws.factorization.size)
    (columns : spanBelow (ws.column n) j = (krylov A r₀ j).map A)
    (inside : ws.direction n j ∈ krylov A r₀ (j + 1))
    (new : ws.direction n j ∉ krylov A r₀ j) :
    spanBelow (ws.column n) (j + 1) = (krylov A r₀ (j + 1)).map A := by
  have image : A (ws.direction n j)
      ∈ (krylov A r₀ j).map A ⊔ Submodule.span ℝ {ws.column n j} := by
    rw [P.image_direction_eq below, ← columns]
    apply Submodule.add_mem_sup
    · exact combination_mem_spanBelow _ _ j
    · exact Submodule.smul_mem _ _ (Submodule.mem_span_singleton_self _)
  rw [spanBelow_succ, columns, ← krylov_succ_eq inside new, Submodule.map_sup, Submodule.map_span,
    Set.image_singleton]
  exact (sup_span_singleton_eq image (image_not_mem injective new)).symm

end Column

/-- A step keeps the directions in the Krylov spaces. -/
theorem Adapted.step {op : Operator ℝ} (acts : ActsAs op A) (injective : Function.Injective A)
    {ν : ℝ} (small : ν < 1) (P : Projected A r₀ ws p norms) (S : Adapted A r₀ ws)
    (left : ws.remainder n r₀ ws.factorization.size ≠ 0)
    (room : ws.factorization.size < ws.capacity) :
    let r := Projected.current n ws r₀
    let z := (chosen ν p r).2
    let w := ofSpace (A (toSpace n z))
    Adapted A r₀ (spaceAfter ws (chosen ν p r).1 z w r) := by
  intro r z w
  obtain ⟨-, P'⟩ := P.step acts ν room
  obtain ⟨inside, new⟩ := S.chosen_new P injective small left
  have last : (spaceAfter ws (chosen ν p r).1 z w r).direction n ws.factorization.size
      = toSpace n z := direction_spaceAfter_last P.fits
  have size : (spaceAfter ws (chosen ν p r).1 z w r).factorization.size
      = ws.factorization.size + 1 := size_spaceAfter
  -- The directions and columns of earlier steps stay, so only the new span has to be compared.
  have directions {j : ℕ} (atMost : j ≤ ws.factorization.size) :
      spanBelow ((spaceAfter ws (chosen ν p r).1 z w r).direction n) j = krylov A r₀ j := by
    rw [← S.directions j atMost]
    apply spanBelow_congr
    intro i below
    exact direction_spaceAfter P.fits (by omega)
  have columns {j : ℕ} (atMost : j ≤ ws.factorization.size) :
      spanBelow ((spaceAfter ws (chosen ν p r).1 z w r).column n) j = (krylov A r₀ j).map A := by
    rw [← S.columns j atMost]
    apply spanBelow_congr
    intro i below
    exact column_spaceAfter (by omega)
  refine ⟨?_, ?_, ?_⟩
  · intro j atMost
    rcases Nat.le_succ_iff_eq_or_le.mp (atMost.trans_eq size) with next | old
    · rw [next, spanBelow_succ, directions le_rfl, last]
      exact krylov_succ_eq inside new
    · exact directions old
  · intro j atMost
    rcases Nat.le_succ_iff_eq_or_le.mp (atMost.trans_eq size) with next | old
    · rw [← last] at inside new
      have below : ws.factorization.size
          < (spaceAfter ws (chosen ν p r).1 z w r).factorization.size := by omega
      rw [next]
      exact P'.columns_succ injective below (columns le_rfl) inside new
    · exact columns old
  · intro j below
    rcases Nat.lt_succ_iff_lt_or_eq.mp (below.trans_eq size) with old | next
    · rw [direction_spaceAfter P.fits old]
      exact S.new j old
    · rw [next, last]
      exact new

/-! ### The end of a cycle -/

namespace Adapted

lemma finrank_krylov (S : Adapted A r₀ ws) {j : ℕ} (atMost : j ≤ ws.factorization.size) :
    Module.finrank ℝ (krylov A r₀ j) = j := by
  induction j with
  | zero => rw [krylov_zero, finrank_bot]
  | succ j ih =>
    have step : krylov A r₀ (j + 1)
        = krylov A r₀ j ⊔ Submodule.span ℝ {ws.direction n j} := by
      rw [← S.directions (j + 1) atMost, spanBelow_succ, S.directions j (by omega)]
    rw [step, Submodule.finrank_sup_span_singleton (S.new j (by omega)), ih (by omega)]

lemma pivot_ne_zero (S : Adapted A r₀ ws) (P : Projected A r₀ ws p norms)
    (injective : Function.Injective A) {i : ℕ} (below : i < ws.factorization.size) :
    ws.factorization.entry i i ≠ 0 :=
  P.pivot_ne_zero injective below (S.columns i below.le) (S.new i below)

end Adapted

section End

variable {tolerance : ℝ} {limit : ℕ} {out : Outcome ℝ}

lemma Finished.update_mem (E : Finished A r₀ tolerance limit ws p out) (S : Adapted A r₀ ws) :
    toSpace n out.update ∈ krylov A r₀ out.steps := by
  rw [E.update, toSpace_ofSpace, E.steps, ← S.directions _ le_rfl]
  exact combination_mem_spanBelow _ _ _

/-- The carried residual is the residual of the update. -/
theorem Finished.sub_map_update_of_adapted (E : Finished A r₀ tolerance limit ws p out)
    (S : Adapted A r₀ ws) (injective : Function.Injective A) :
    r₀ - A (toSpace n out.update) = ws.remainder n r₀ ws.factorization.size :=
  E.sub_map_update_of_pivots fun _ below => S.pivot_ne_zero E.projected injective below

/-- No other point of the Krylov space leaves as little as the update. -/
theorem Finished.norm_lt (E : Finished A r₀ tolerance limit ws p out) (S : Adapted A r₀ ws)
    (injective : Function.Injective A) {v : Space n} (inside : v ∈ krylov A r₀ out.steps)
    (other : v ≠ toSpace n out.update) :
    ‖r₀ - A (toSpace n out.update)‖ < ‖r₀ - A v‖ := by
  have difference : A (toSpace n out.update - v)
      ∈ spanBelow (ws.column n) ws.factorization.size := by
    rw [S.columns _ le_rfl, ← E.steps]
    exact Submodule.mem_map_of_mem (Submodule.sub_mem _ (E.update_mem S) inside)
  have orthogonal := E.projected.inner_remainder_of_mem le_rfl difference
  have moved : A (toSpace n out.update - v) ≠ 0 := by
    rw [map_ne_zero_iff A injective, sub_ne_zero]
    exact other.symm
  have split : r₀ - A v
      = ws.remainder n r₀ ws.factorization.size + A (toSpace n out.update - v) := by
    rw [← E.sub_map_update_of_adapted S injective, map_sub]
    module
  -- Pythagoras: what is left is orthogonal to the columns, and the difference is among them.
  have squares := norm_add_sq_real (ws.remainder n r₀ ws.factorization.size)
    (A (toSpace n out.update - v))
  rw [real_inner_comm, orthogonal, ← split] at squares
  rw [E.sub_map_update_of_adapted S injective]
  have positive := norm_pos_iff.mpr moved
  have nonneg : 0 ≤ ‖r₀ - A v‖ := by positivity
  apply lt_of_pow_lt_pow_left₀ 2 nonneg
  nlinarith

end End

/-- A cycle with an injective linear operator goes through, and keeps to the Krylov spaces. -/
theorem run_adapted {op : Operator ℝ} (acts : ActsAs op A) (injective : Function.Injective A)
    {ν : ℝ} (small : ν < 1) (tolerance : ℝ) {capacity : ℕ} (fits : capacity ≤ n)
    {used : Workspace ℝ} (empty : used.reset = .empty n capacity) (nonzero : r₀ ≠ 0)
    {maxSteps : Int} (positive : (min maxSteps capacity).toNat ≠ 0) :
    ∃ ws p out,
      (run op (Tensor.ofVec (ofSpace r₀)) ‖r₀‖ (.ok ν) (.ok tolerance) maxSteps).run used
        = (.ok out, ws) ∧ ws.reset = .empty n capacity ∧
      Finished A r₀ tolerance (min maxSteps capacity).toNat ws p out ∧ Adapted A r₀ ws := by
  apply run_finished acts fits empty nonzero positive fun ws _ => Adapted A r₀ ws
  · exact adapted_empty A r₀ capacity
  · intro ws p norms P S left room
    exact S.step acts injective small P left room

/-- A cycle of at least one step with an invertible linear operator, on a work space that has
forgotten its last cycle, never meets a zero pivot. Its directions span the Krylov spaces of the
residual, the update is the point of the last of them that leaves least, and residual and norm are
those of the update. -/
theorem run_minimizes {op : Operator ℝ} (acts : ActsAs op A) (invertible : Function.Bijective A)
    {m : Int} (room : 1 ≤ m) {fresh used : Workspace ℝ} (created : Workspace.create n m = .ok fresh)
    (unused : used.reset = fresh) (nonzero : r₀ ≠ 0) {ν : ℝ} (small : ν < 1) (tolerance : ℝ)
    {maxSteps : Int} (allowed : 1 ≤ maxSteps) :
    ∃ out ws,
      (run op (Tensor.ofVec (ofSpace r₀)) ‖r₀‖ (.ok ν) (.ok tolerance) maxSteps).run used
        = (.ok out, ws) ∧
      0 < out.steps ∧ (out.steps : Int) ≤ min maxSteps (min m n) ∧
      ws.directions.length = out.steps ∧
      ws.factorization.triangular.HasShape out.steps out.steps ∧
      (∀ i < out.steps, ws.factorization.triangular.entry i i ≠ 0) ∧
      (∀ j ≤ out.steps, spanBelow (ws.direction n) j = krylov A r₀ j) ∧
      Module.finrank ℝ (krylov A r₀ out.steps) = out.steps ∧
      out.update.length = n ∧ toSpace n out.update ∈ krylov A r₀ out.steps ∧
      (∀ v ∈ krylov A r₀ out.steps, v ≠ toSpace n out.update →
        ‖r₀ - A (toSpace n out.update)‖ < ‖r₀ - A v‖) ∧
      out.residual = Tensor.ofVec (ofSpace (r₀ - A (toSpace n out.update))) ∧
      out.norm = ‖r₀ - A (toSpace n out.update)‖ := by
  -- A residual other than zero leaves room for a step, whatever the capacity asked for.
  have dimension : 0 < n := by
    rcases Nat.eq_zero_or_pos n with zero | positive
    · subst zero
      exact absurd (Subsingleton.elim r₀ 0) nonzero
    · exact positive
  obtain ⟨-, -, rfl⟩ := (Workspace.create_eq_ok_iff _ _ _).mp created
  have some_step : (min maxSteps ((min m n).toNat : Int)).toNat ≠ 0 := by omega
  obtain ⟨ws, p, out, run, -, E, S⟩ :=
    run_adapted acts invertible.injective small tolerance (by omega) unused nonzero some_step
  have P := E.projected
  have residual := E.sub_map_update_of_adapted S invertible.injective
  have shape := P.factors.hasShape_triangular
  have steps := E.steps
  have atMost := E.atMost
  have positive := E.positive
  refine ⟨out, ws, run, by omega, by omega, ?_, by rwa [steps], ?_, ?_, ?_, ?_, E.update_mem S, ?_,
    ?_, ?_⟩
  · rw [steps, P.fits.length_directions]
  · intro i below
    rw [steps] at below
    rw [P.factors.entry_triangular below below]
    exact S.pivot_ne_zero P invertible.injective below
  · intro j below
    exact S.directions j (below.trans_eq steps)
  · rw [steps]
    exact S.finrank_krylov le_rfl
  · rw [E.update, length_ofSpace]
  · intro v inside other
    exact E.norm_lt S invertible.injective inside other
  · rw [E.residual, residual]
  · rw [E.norm, residual]

/-- The turn of the plane by a right angle. -/
noncomputable def quarterTurn : Tensor ℝ := ⟨[2, 2], [0, -1, 1, 0]⟩

lemma isSquare_quarterTurn : quarterTurn.IsSquare 2 := ⟨rfl, rfl⟩

lemma quarterTurn_bijective :
    Function.Bijective (Matrix.toEuclideanLin (quarterTurn.toMatrix 2)) := by
  have entries : quarterTurn.toMatrix 2 = !![0, -1; 1, 0] := by
    ext i j
    fin_cases i <;> fin_cases j <;> rfl
  have injective : Function.Injective (Matrix.toEuclideanLin (quarterTurn.toMatrix 2)) := by
    rw [entries, injective_iff_map_eq_zero]
    intro x zero
    have first := congrArg (fun y : Space 2 => y 0) zero
    have second := congrArg (fun y : Space 2 => y 1) zero
    simp [Matrix.toLpLin_apply, dotProduct, Fin.sum_univ_two] at first second
    ext i
    fin_cases i
    · exact second
    · exact first
  exact ⟨injective, LinearMap.injective_iff_surjective.mp injective⟩

/-- The quarter turn of a residual is orthogonal to it. So the first step takes nothing away, and
the second direction is the first column. -/
theorem run_minimizes_quarterTurn :
    ∃ out ws,
      (run quarterTurn.product (Tensor.ofVec [1, 0]) 1 (.ok (1 / 2)) (.ok 0) 2).run
        ⟨2, 2, [(.column, [1, 1])], [3], .empty 2 2⟩ = (.ok out, ws) ∧
      0 < out.steps ∧ (∀ i < out.steps, ws.factorization.triangular.entry i i ≠ 0) ∧
      out.norm
        = ‖!₂[1, 0] - Matrix.toEuclideanLin (quarterTurn.toMatrix 2) (toSpace 2 out.update)‖ := by
  have nonzero : (!₂[1, 0] : Space 2) ≠ 0 := by
    intro zero
    simpa using congrArg (fun y : Space 2 => y 0) zero
  have vector : ofSpace (!₂[1, 0] : Space 2) = [1, 0] := by simp [ofSpace]
  have unit : ‖(!₂[1, 0] : Space 2)‖ = 1 := by simp [EuclideanSpace.norm_eq]
  obtain ⟨out, ws, cycle, positive, -, -, -, pivots, -, -, -, -, -, -, norm⟩ :=
    run_minimizes isSquare_quarterTurn.actsAs_product quarterTurn_bijective (m := 2) (by norm_num)
      rfl (show Workspace.reset ⟨2, 2, [(.column, [1, 1])], [3], .empty 2 2⟩ = _ from rfl) nonzero
      (show (1 / 2 : ℝ) < 1 by norm_num) 0 (show (1 : Int) ≤ 2 by norm_num)
  rw [vector, unit] at cycle
  exact ⟨out, ws, cycle, positive, pivots, norm⟩

end Cycle

end NewtonKrylov
