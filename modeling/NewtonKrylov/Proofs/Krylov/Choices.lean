import NewtonKrylov.Proofs.Krylov.Decay
import NewtonKrylov.Proofs.Krylov.Directions

/-!
# The choice of the directions

In exact arithmetic every direction that a cycle records is a unit vector. The first one is the
normalized residual. A later one is the normalized residual if the last step has reduced the norm as
far as the threshold asks, and else the last column of the orthogonal factor. `Recorded` says this
for one direction, in terms of what is left of the first residual before its step.

The operator may fail, and may give arrays that do not fit. Then the cycle ends in the middle of a
step, and the direction of this step is recorded like the others.
-/

namespace NewtonKrylov

open Vec
open scoped InnerProductSpace

variable {n m : ℕ}

namespace Cycle

variable {F : Space n → Space n} {r₀ : Space n} {ws : Workspace ℝ} {p : Progress ℝ}
  {norms : List ℝ} {ν : ℝ}

/-! ### One direction -/

/-- The direction of step `j`, in terms of the residuals before this step and the one before it. -/
structure Recorded (n : ℕ) (ν : ℝ) (r₀ : Space n) (ws : Workspace ℝ) (j : ℕ)
    (choice : DirectionSource) (z : Vec ℝ) : Prop where
  unit : IsDirection n z
  nonzero : ws.remainder n r₀ j ≠ 0
  first : j = 0 → choice = .residual
  later : ∀ i, j = i + 1 →
    ‖ws.remainder n r₀ j‖ ≤ ‖ws.remainder n r₀ i‖ ∧
      (choice = .residual ↔ ‖ws.remainder n r₀ j‖ ≤ ν * ‖ws.remainder n r₀ i‖)
  residual : choice = .residual →
    z = ofSpace (‖ws.remainder n r₀ j‖⁻¹ • ws.remainder n r₀ j)
  column : choice = .column → ∃ i, j = i + 1 ∧ ws.factorization.column? i = .ok z

/-- The directions of all steps, and the coefficients that have been taken from the residual. -/
structure Consistent (n : ℕ) (ν : ℝ) (r₀ : Space n) (ws : Workspace ℝ) : Prop where
  recorded : ∀ j choice z, ws.basis[j]? = some (choice, z) → Recorded n ν r₀ ws j choice z
  coefficient : ∀ j < ws.coefficients.length,
    ws.coefficients.getD j 0 = ⟪ws.column n j, ws.remainder n r₀ j⟫_ℝ

/-- There is at least one direction. -/
structure Begun (n : ℕ) (ν : ℝ) (r₀ : Space n) (ws : Workspace ℝ) : Prop
    extends Consistent n ν r₀ ws where
  some_direction : ws.basis ≠ []

namespace Projected

variable (P : Projected F r₀ ws p norms)
include P

lemma remainder_ne_zero (nonzero : p.norm ≠ 0) : ws.remainder n r₀ ws.factorization.size ≠ 0 := by
  rw [P.norm] at nonzero
  exact norm_ne_zero_iff.mp nonzero

lemma divBy_current : divBy (current n ws r₀) p.norm
    = ofSpace (‖ws.remainder n r₀ ws.factorization.size‖⁻¹
        • ws.remainder n r₀ ws.factorization.size) := by
  rw [P.norm, current, divBy_ofSpace]

/-- The normalized residual as the next direction. -/
lemma recorded_residual (nonzero : p.norm ≠ 0)
    (decays : ∀ i, ws.factorization.size = i + 1 →
      ‖ws.remainder n r₀ (i + 1)‖ ≤ ν * ‖ws.remainder n r₀ i‖) :
    Recorded n ν r₀ ws ws.factorization.size .residual (divBy (current n ws r₀) p.norm) where
  unit := by
    have length : (current n ws r₀).length = n := length_ofSpace _
    have norm : Vec.norm (current n ws r₀) = p.norm := (norm_ofSpace _).trans P.norm.symm
    have normalized := isDirection_divBy length (norm ▸ nonzero)
    rwa [norm] at normalized
  nonzero := P.remainder_ne_zero nonzero
  first _ := rfl
  later i size := by
    have below : i < ws.factorization.size := by omega
    have fast := decays i size
    rw [← size] at fast
    exact ⟨size ▸ P.norm_remainder_succ_le below, iff_of_true rfl fast⟩
  residual _ := P.divBy_current
  column := nofun

/-- The last column of the orthogonal factor as the next direction. -/
lemma recorded_column (nonzero : p.norm ≠ 0) {i : ℕ} (size : ws.factorization.size = i + 1)
    (stalls : ¬ ‖ws.remainder n r₀ (i + 1)‖ ≤ ν * ‖ws.remainder n r₀ i‖) :
    Recorded n ν r₀ ws ws.factorization.size .column (ws.factorization.column i) where
  unit := P.factors.isDirection_column (by omega)
  nonzero := P.remainder_ne_zero nonzero
  first none := by omega
  later k same := by
    obtain rfl : k = i := by omega
    rw [size]
    exact ⟨P.norm_remainder_succ_le (by omega), iff_of_false nofun stalls⟩
  residual := nofun
  column _ := ⟨i, size, (Factorization.column?_eq_ok_iff _ _ _).mpr ⟨by omega, by omega, rfl⟩⟩

/-- The next direction is recorded as it should be. -/
lemma recorded (nonzero : p.norm ≠ 0) (ν : ℝ) :
    Recorded n ν r₀ ws ws.factorization.size (chosen ν p (current n ws r₀)).1
      (chosen ν p (current n ws r₀)).2 := by
  -- Before the first step there is no column to choose. After it the norms of the last two steps
  -- decide.
  cases size : ws.factorization.size with
  | zero =>
    rw [chosen_of_none (by rw [P.last, if_pos size]), ← size]
    exact P.recorded_residual nonzero fun i succ => by omega
  | succ i =>
    have column : p.column = some (ws.factorization.column i) := by
      rw [P.last, if_neg (by omega), size, Nat.add_sub_cancel]
    have norm := P.norm
    have previous := P.previous
    rw [size] at norm previous
    rw [Nat.add_sub_cancel] at previous
    rw [chosen_of_some column, ← size]
    split_ifs with fast
    · rw [norm, previous] at fast
      refine P.recorded_residual nonzero fun k succ => ?_
      obtain rfl : k = i := by omega
      exact fast
    · rw [norm, previous] at fast
      exact P.recorded_column nonzero size fast

end Projected

/-! ### All directions -/

/-- What is said of a direction depends on the steps before it. -/
lemma Recorded.congr {ws' : Workspace ℝ} {j : ℕ} {choice : DirectionSource} {z : Vec ℝ}
    (recorded : Recorded n ν r₀ ws j choice z)
    (remainders : ∀ k ≤ j, ws'.remainder n r₀ k = ws.remainder n r₀ k)
    (columns : ∀ i < j, ws'.factorization.column? i = ws.factorization.column? i) :
    Recorded n ν r₀ ws' j choice z where
  unit := recorded.unit
  nonzero := by
    rw [remainders j le_rfl]
    exact recorded.nonzero
  first := recorded.first
  later i succ := by
    rw [remainders j le_rfl, remainders i (by omega)]
    exact recorded.later i succ
  residual := by
    rw [remainders j le_rfl]
    exact recorded.residual
  column source := by
    obtain ⟨i, succ, available⟩ := recorded.column source
    exact ⟨i, succ, by rw [columns i (by omega), available]⟩

lemma consistent_empty (n capacity : ℕ) (ν : ℝ) (r₀ : Space n) :
    Consistent n ν r₀ (.empty n capacity) where
  recorded := by simp [Workspace.empty]
  coefficient := by simp [Workspace.empty]

/-- One direction more. -/
lemma Consistent.record (consistent : Consistent n ν r₀ ws) {choice : DirectionSource} {z : Vec ℝ}
    (new : Recorded n ν r₀ ws ws.basis.length choice z) :
    Consistent n ν r₀ (ws.record choice z) where
  recorded j source v at_j := by
    have same : Recorded n ν r₀ ws j source v := by
      rw [Workspace.record, List.getElem?_append] at at_j
      split_ifs at at_j with old
      · exact consistent.recorded j source v at_j
      · rw [List.getElem?_singleton] at at_j
        split_ifs at at_j with last
        cases at_j
        rwa [show j = ws.basis.length by omega]
    exact same.congr (fun _ _ => rfl) fun _ _ => rfl
  coefficient := consistent.coefficient

/-- One image more. -/
lemma Consistent.spaceAfter (P : Projected F r₀ ws p norms)
    (room : ws.factorization.size < ws.capacity) {choice : DirectionSource} {z w : Vec ℝ}
    (hw : w.length = n) (consistent : Consistent n ν r₀ (ws.record choice z)) :
    Consistent n ν r₀ (spaceAfter ws choice z w (Projected.current n ws r₀)) where
  recorded j source v at_j := by
    have atMost : j ≤ ws.factorization.size := by
      have inside : j < (ws.basis ++ [(choice, z)]).length :=
        (List.getElem?_eq_some_iff.mp at_j).1
      rw [List.length_append, P.fits.basis] at inside
      exact Nat.lt_succ_iff.mp inside
    refine (consistent.recorded j source v at_j).congr ?_ ?_
    · intro k before
      exact remainder_spaceAfter P.fits r₀ (before.trans atMost)
    · intro i below
      have old : ws.factorization.column? i = .ok (ws.factorization.column i) :=
        (Factorization.column?_eq_ok_iff _ _ _).mpr ⟨by omega, by omega, rfl⟩
      change (ws.factorization.push w).column? i = ws.factorization.column? i
      rw [old, Factorization.column?_eq_ok_iff, Factorization.size_push]
      exact ⟨by omega, by omega, (ws.factorization.column_push w (by omega)).symm⟩
  coefficient j inside := by
    have count : (Cycle.spaceAfter ws choice z w (Projected.current n ws r₀)).coefficients.length
        = ws.factorization.size + 1 := by
      simp [Cycle.spaceAfter, P.fits.coefficients]
    rw [count] at inside
    rcases Nat.lt_succ_iff_lt_or_eq.mp inside with old | new
    · rw [coefficient_spaceAfter P.fits old, column_spaceAfter old,
        remainder_spaceAfter P.fits r₀ old.le]
      exact consistent.coefficient j (by rw [← P.fits.coefficients] at old; exact old)
    · rw [new, coefficient_spaceAfter_last P.fits, remainder_spaceAfter P.fits r₀ le_rfl,
        Projected.current, ← inner_toSpace (P.fits.length_newColumn room hw) (length_ofSpace _),
        toSpace_ofSpace]
      rfl

/-! ### Operators that may fail -/

/-- The operator as a function of points, where it gives vectors of length `n`, and zero where it
fails or gives something else. -/
noncomputable def action (n : ℕ) (op : Operator ℝ) (x : Space n) : Space n :=
  match op (Tensor.ofVec (ofSpace x)) with
  | .ok y => toSpace n y.entries
  | .error _ => 0

lemma apply_eq_action {op : Operator ℝ} (full : GivesFull op) {z : Vec ℝ} (length : z.length = n)
    {y : Tensor ℝ} (applied : op (Tensor.ofVec z) = .ok y) (shape : y.shape = [n]) :
    op (Tensor.ofVec z) = .ok (Tensor.ofVec (ofSpace (action n op (toSpace n z)))) := by
  have count : y.entries.length = n := by
    rw [full _ y (Tensor.full_ofVec z) applied, shape]
    simp [Tensor.count]
  rw [action, ofSpace_toSpace length, applied, ofSpace_toSpace count, Tensor.ofVec, count, ← shape]

section Run

variable {op : Operator ℝ} (full : GivesFull op) (tolerance : Setting ℝ)
include full

/-- A step keeps the invariants if it goes through, and records its direction also if it does
not. -/
lemma Consistent.step_leads (consistent : Consistent n ν r₀ ws)
    (P : Projected (action n op) r₀ ws p norms) (nonzero : p.norm ≠ 0)
    (room : ws.factorization.size < ws.capacity) :
    Leads (step op (.ok ν) p) ws
      (fun p' ws' => Projected (action n op) r₀ ws' p' (norms ++ [p'.norm]) ∧
        Begun n ν r₀ ws' ∧ ws'.capacity = ws.capacity)
      (Begun n ν r₀) := by
  have hz := P.length_chosen ν
  have direction := P.recorded nonzero ν
  rw [← P.fits.basis] at direction
  have recorded := consistent.record direction
  -- A direction is recorded before the operator is asked, so it is there also if the operator fails
  -- or gives a vector that does not fit.
  by_cases goes_through : ∃ y,
      op (Tensor.ofVec (chosen ν p (Projected.current n ws r₀)).2) = .ok y ∧ y.shape = [n]
  · obtain ⟨y, applied, shape⟩ := goes_through
    obtain ⟨run, next⟩ := P.step_of_image ν room (apply_eq_action full hz applied shape)
    exact .of_run run
      ⟨next, ⟨recorded.spaceAfter P room (length_ofSpace _), List.concat_ne_nil _ _⟩, rfl⟩
  · have begun : Begun n ν r₀ (ws.record _ _) := ⟨recorded, List.concat_ne_nil _ _⟩
    rw [step]
    refine .ok_bind (nextDirection_eq P.residual ν) ?_
    rw [leads_bind, leads_get]
    refine .ok_bind (Tensor.fill_ofVec (hz.trans P.fits.dimension.symm)) ?_
    rw [leads_bind, leads_set]
    refine .lift_bind begun fun y applied => .lift_bind begun fun f extended => ?_
    obtain ⟨-, shape, -⟩ := (Factorization.extend_eq_ok_iff _ _ _).mp extended
    exact absurd ⟨y, applied, shape.trans (by rw [← P.fits.rows])⟩ goes_through

/-- The loop keeps the invariants. -/
lemma Consistent.iterate_leads {N : ℕ} (consistent : Consistent n ν r₀ ws)
    (begun : ws.basis ≠ [] ∨ 0 < N) (P : Projected (action n op) r₀ ws p norms)
    (nonzero : p.norm ≠ 0) (room : norms.length + N ≤ ws.capacity) :
    Leads (iterate op (.ok ν) tolerance N p) ws
      (fun result ws' => Projected (action n op) r₀ ws' result.1 (norms ++ result.2) ∧
        Begun n ν r₀ ws')
      (Begun n ν r₀) := by
  -- By induction on the steps that are left. What has been begun holds in the state of a failure,
  -- the whole invariant only in that of a result.
  induction N generalizing ws p norms with
  | zero =>
    refine ⟨?_, consistent, begun.resolve_right (lt_irrefl 0)⟩
    rwa [List.append_nil]
  | succ N ih =>
    have count := P.length_norms
    rw [iterate]
    refine (consistent.step_leads full P nonzero (by omega)).bind ?_
    rintro p' ws' ⟨P', begun', same⟩
    refine .lift_bind begun' fun τ _ => ?_
    split_ifs with done
    · exact ⟨P', begun'⟩
    · have goes_on : p'.norm ≠ 0 := fun zero => done (.inr (beq_iff_eq.mpr zero))
      have rest := ih begun'.toConsistent (.inl begun'.some_direction) P' goes_on
        (by simp; omega)
      refine rest.bind fun result ws'' last => ?_
      rwa [List.append_assoc] at last

/-- A cycle records its directions as it should, whether or not it goes through. -/
lemma run_leads_consistent {used : Workspace ℝ} (fits : m ≤ n) (empty : used.reset = .empty n m)
    (nonzero : r₀ ≠ 0) (ν : ℝ) (maxSteps : ℤ) :
    Leads (run op (Tensor.ofVec (ofSpace r₀)) ‖r₀‖ (.ok ν) tolerance maxSteps) used
      (fun out ws => (Consistent n ν r₀ ws ∧ (0 < min maxSteps m → ws.basis ≠ [])) ∧
        ∃ p, Projected (action n op) r₀ ws p out.history ∧
          out.steps = ws.factorization.size ∧ out.residual = p.residual)
      (fun ws => Consistent n ν r₀ ws ∧ (0 < min maxSteps m → ws.basis ≠ [])) := by
  have start := projected_start fits (action n op) r₀
  have norm_nonzero : ‖r₀‖ ≠ 0 := norm_ne_zero_iff.mpr nonzero
  rw [run, leads_bind, leads_modify, leads_bind, leads_get, empty]
  extract_lets steps
  split_ifs with zero none
  · exact absurd (beq_iff_eq.mp zero) norm_nonzero
  · refine ⟨⟨consistent_empty n m ν r₀, ?_⟩, _, start, rfl, rfl⟩
    intro positive
    change (min maxSteps m).toNat = 0 at none
    omega
  · have atMost : steps ≤ m := by
      change (min maxSteps m).toNat ≤ m
      omega
    have loop := (consistent_empty n m ν r₀).iterate_leads full tolerance (N := steps)
      (.inr (Nat.pos_of_ne_zero none)) start norm_nonzero (by simpa [Workspace.empty] using atMost)
    refine (loop.mono (fun _ _ => id) fun ws begun =>
      ⟨begun.toConsistent, fun _ => begun.some_direction⟩).bind ?_
    rintro ⟨last, norms⟩ ws ⟨P, begun⟩
    rw [leads_bind, leads_get]
    refine .lift_bind ⟨begun.toConsistent, fun _ => begun.some_direction⟩ fun y _ => ?_
    exact ⟨⟨begun.toConsistent, fun _ => begun.some_direction⟩, last, P, P.length_norms, rfl⟩

end Run

/-! ### The thresholds that leave no choice -/

namespace Consistent

variable (consistent : Consistent n ν r₀ ws)
include consistent

lemma head?_choices (some_direction : ws.basis ≠ []) : ws.choices.head? = some .residual := by
  obtain ⟨⟨choice, z⟩, rest, basis⟩ := List.exists_cons_of_ne_nil some_direction
  have first := consistent.recorded 0 choice z (by rw [basis, List.getElem?_cons_zero])
  rw [Workspace.choices, basis, List.map_cons, List.head?_cons, first.first rfl]

/-- No step increases the norm, so a threshold of at least one asks for nothing. -/
lemma choices_of_one_le (large : 1 ≤ ν) : ∀ c ∈ ws.choices, c = .residual := by
  intro c member
  obtain ⟨⟨choice, z⟩, old, rfl⟩ := List.mem_map.mp member
  obtain ⟨j, at_j⟩ := List.getElem?_of_mem old
  have recorded := consistent.recorded j choice z at_j
  cases j with
  | zero => exact recorded.first rfl
  | succ i =>
    obtain ⟨decays, source⟩ := recorded.later i rfl
    exact source.mpr (decays.trans (le_mul_of_one_le_left (norm_nonneg _) large))

/-- No residual is zero before a step, so a threshold of zero asks for too much. -/
lemma choices_of_zero (zero : ν = 0) : ∀ c ∈ ws.choices.tail, c = .column := by
  intro c member
  rw [Workspace.choices, ← List.map_tail] at member
  obtain ⟨⟨choice, z⟩, later, rfl⟩ := List.mem_map.mp member
  obtain ⟨i, at_i⟩ := List.getElem?_of_mem later
  rw [List.getElem?_tail] at at_i
  have recorded := consistent.recorded (i + 1) choice z at_i
  obtain ⟨-, source⟩ := recorded.later i rfl
  cases choice with
  | column => rfl
  | residual =>
    have none := source.mp rfl
    rw [zero, zero_mul, norm_le_zero_iff] at none
    exact absurd none recorded.nonzero

end Consistent

/-- In a cycle from a residual other than zero every direction is recorded as it should be, with any
operator, threshold and tolerance. A threshold of at least one leads to residuals only, and one of
zero to columns only after the first direction. If the cycle goes through, it has recorded a
direction for each of its steps, and the norms it hands on are those that decided. -/
theorem run_consistent {op : Operator ℝ} (full : GivesFull op) (fits : m ≤ n)
    {used : Workspace ℝ} (empty : used.reset = .empty n m) (nonzero : r₀ ≠ 0) (ν tolerance : ℝ)
    (maxSteps : ℤ) :
    let ended :=
      (run op (Tensor.ofVec (ofSpace r₀)) ‖r₀‖ (.ok ν) (.ok tolerance) maxSteps).run used
    let ws := ended.2
    Consistent n ν r₀ ws ∧
      (0 < min maxSteps m → ws.choices.head? = some .residual) ∧
      (1 ≤ ν → ∀ c ∈ ws.choices, c = .residual) ∧
      (ν = 0 → ∀ c ∈ ws.choices.tail, c = .column) ∧
      ∀ out, ended.1 = .ok out → ws.basis.length = out.steps ∧
        ws.coefficients.length = out.steps ∧
        out.history = (List.range out.steps).map (fun j => ‖ws.remainder n r₀ (j + 1)‖) ∧
        out.residual = Tensor.ofVec (ofSpace (ws.remainder n r₀ out.steps)) := by
  intro ended ws
  have leads := run_leads_consistent full (.ok tolerance) fits empty nonzero ν maxSteps
  have kept : Consistent n ν r₀ ws ∧ (0 < min maxSteps m → ws.basis ≠ []) :=
    (leads.mono (fun _ _ both => both.1) fun _ => id).state
  obtain ⟨consistent, some_direction⟩ := kept
  refine ⟨consistent, fun positive => consistent.head?_choices (some_direction positive),
    consistent.choices_of_one_le, consistent.choices_of_zero, ?_⟩
  intro out success
  obtain ⟨-, p, P, steps, residual⟩ := leads.result (t := ws) (Prod.ext success rfl)
  rw [steps, P.fits.basis, P.fits.coefficients, residual]
  exact ⟨rfl, rfl, P.norms, P.residual⟩

/-- An operator that gives the second axis whatever it is asked, and a residual along the first
one. -/
theorem run_consistent_constant :
    let ws := ((run (fun _ => .ok (Tensor.ofVec [0, 1])) (Tensor.ofVec (ofSpace !₂[1, 0]))
      ‖!₂[(1 : ℝ), 0]‖ (.ok 0) (.ok 0) 2).run (.empty 2 2)).2
    Consistent 2 0 !₂[1, 0] ws ∧ ws.choices.head? = some .residual ∧
      ∀ c ∈ ws.choices.tail, c = .column := by
  have full : GivesFull fun _ => .ok (Tensor.ofVec [(0 : ℝ), 1]) := by
    rintro _ _ _ ⟨rfl⟩
    exact Tensor.full_ofVec _
  have nonzero : !₂[(1 : ℝ), 0] ≠ 0 := by
    intro zero
    simpa using congrArg (fun x : Space 2 => x 0) zero
  have unused : (Workspace.empty 2 2 : Workspace ℝ).reset = .empty 2 2 := rfl
  obtain ⟨consistent, first, -, later, -⟩ :=
    run_consistent full (le_refl 2) unused nonzero 0 0 2
  exact ⟨consistent, first (by decide), later rfl⟩

end Cycle

end NewtonKrylov
