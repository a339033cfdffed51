import NewtonKrylov.Krylov.Cycle
import NewtonKrylov.Proofs.Effects
import NewtonKrylov.Proofs.Factorization

/-!
# The run of a cycle

Nothing here depends on the arithmetic. On vectors of the right length a step of a cycle goes
through: `step_run` says what it leaves in the work space and what it hands on. `iterate_run` is the
rule for the loop, by which a property that every step preserves holds in the end, and `run_eq_ok`
puts the loop and the final solution of the triangular system together.

`Fits` is the part of the invariant that says nothing but sizes.
-/

namespace NewtonKrylov

namespace Cycle

open Vec Reflection

variable {α β γ : Type}

variable [Scalar α]

/-! ### One step -/

/-- The choice and the direction of the next step from the residual `r`. -/
def chosen (ν : α) (p : Progress α) (r : Vec α) : DirectionSource × Vec α :=
  match p.column with
  | none => (.residual, divBy r p.norm)
  | some q =>
    match DirectionSource.after p.norm p.previousNorm ν with
    | .residual => (.residual, divBy r p.norm)
    | .column => (.column, q)

lemma chosen_of_none {p : Progress α} (none : p.column = .none) (ν : α) (r : Vec α) :
    chosen ν p r = (.residual, divBy r p.norm) := by
  rw [chosen, none]

lemma chosen_of_some {p : Progress α} {q : Vec α} (some : p.column = .some q) (ν : α) (r : Vec α) :
    chosen ν p r = if p.norm ≤ ν * p.previousNorm then (.residual, divBy r p.norm)
      else (.column, q) := by
  rw [chosen, some, DirectionSource.after]
  split_ifs <;> rfl

lemma length_chosen {p : Progress α} {r : Vec α} {n : ℕ} (length : r.length = n)
    (last : ∀ q ∈ p.column, q.length = n) (ν : α) : (chosen ν p r).2.length = n := by
  have normalized : (divBy r p.norm).length = n := by rw [length_divBy, length]
  cases column : p.column with
  | none =>
    rw [chosen_of_none column]
    exact normalized
  | some q =>
    rw [chosen_of_some column]
    split_ifs
    · exact normalized
    · exact last q column

/-- The column that the image `w` of a direction adds to the orthogonal factor. -/
def newColumn (ws : Workspace α) (w : Vec α) : Vec α :=
  (ws.factorization.push w).column ws.factorization.size

/-- The work space after a step in direction `z` with image `w` from the residual `r`. -/
def spaceAfter (ws : Workspace α) (choice : DirectionSource) (z w r : Vec α) : Workspace α :=
  { ws.record choice z with
    coefficients := ws.coefficients ++ [dot (newColumn ws w) r]
    factorization := ws.factorization.push w }

/-- What a step with the new column `q` from the residual `r` of norm `norm` hands on. -/
def progressAfter (norm : α) (q r : Vec α) : Progress α :=
  let left := sub r (smul (dot q r) q)
  ⟨Tensor.ofVec left, Vec.norm left, norm, some q⟩

lemma nextDirection_eq {p : Progress α} {r : Vec α} (residual : p.residual = Tensor.ofVec r)
    (ν : α) :
    nextDirection (.ok ν) p = .ok ((chosen ν p r).1, Tensor.ofVec (chosen ν p r).2) := by
  unfold nextDirection chosen
  cases p.column with
  | none => simp [DirectionSource.direction, residual, divBy]
  | some q =>
    cases source : DirectionSource.after p.norm p.previousNorm ν with
    | residual =>
      simp [DirectionSource.direction, residual, divBy, source]
    | column => simp [DirectionSource.direction, source]

/-- The new column is the last one. -/
lemma column_push_last (ws : Workspace α) (w : Vec α) :
    (ws.factorization.push w).column ((ws.factorization.push w).size - 1) = newColumn ws w := by
  rw [Factorization.size_push, Nat.add_sub_cancel]
  rfl

/-- A step on vectors of the right length goes through. -/
theorem step_run {op : Operator α} {ν : α} {p : Progress α} {ws : Workspace α} {r w : Vec α}
    (residual : p.residual = Tensor.ofVec r) (hr : r.length = ws.dimension)
    (hz : (chosen ν p r).2.length = ws.dimension)
    (image : op (Tensor.ofVec (chosen ν p r).2) = .ok (Tensor.ofVec w))
    (hw : w.length = ws.factorization.rows)
    (room : ws.factorization.size < ws.factorization.capacity)
    (hq : (newColumn ws w).length = ws.dimension) :
    (step op (.ok ν) p).run ws
      = (.ok (progressAfter p.norm (newColumn ws w) r),
        spaceAfter ws (chosen ν p r).1 (chosen ν p r).2 w r) := by
  have extended : ws.factorization.extend (Tensor.ofVec w) = .ok (ws.factorization.push w) := by
    rw [Factorization.extend_eq_ok_iff]
    exact ⟨room, by rw [← hw]; rfl, rfl⟩
  have product : Tensor.product (Tensor.ofVec (newColumn ws w)) p.residual
      = .ok (Tensor.ofScalar (dot (newColumn ws w) r)) := by
    rw [residual, Tensor.product_ofVec (by rw [hq, hr])]
  have difference : Tensor.combine (· - ·) p.residual
      (Tensor.ofVec (smul (dot (newColumn ws w) r) (newColumn ws w)))
        = .ok (Tensor.ofVec (sub r (smul (dot (newColumn ws w) r) (newColumn ws w)))) := by
    rw [residual, Tensor.combine_ofVec _ (by rw [length_smul, hq, hr])]
    rfl
  have filled : (Tensor.ofVec (chosen ν p r).2).fill ws.dimension = .ok (chosen ν p r).2 :=
    Tensor.fill_ofVec hz
  -- Every effect of the step is known by now, so its run is a chain of rewrites.
  unfold step
  rw [run_lift_bind (nextDirection_eq residual ν)]
  simp only [run_get_bind]
  rw [run_lift_bind filled, run_set_bind, run_lift_bind image, run_lift_bind extended,
    run_modify_bind, column_push_last, run_lift_bind product,
    run_lift_bind (Tensor.number_ofScalar _), run_modify_bind, run_lift_bind difference, run_pure]
  rfl

/-! ### Sizes -/

/-- The parts of a work space fit together, for a problem of dimension `n`. -/
structure Fits (n : ℕ) (ws : Workspace α) : Prop where
  dimension : ws.dimension = n
  rows : ws.factorization.rows = n
  capacity : ws.factorization.capacity = ws.capacity
  capacity_le : ws.capacity ≤ n
  shrinking : Shrinking n ws.factorization.reflectors
  directions : ∀ z ∈ ws.directions, z.length = n
  basis : ws.basis.length = ws.factorization.size
  coefficients : ws.coefficients.length = ws.factorization.size

variable {n : ℕ} {ws : Workspace α}

omit [Scalar α] in
lemma fits_empty {capacity : ℕ} (fits : capacity ≤ n) :
    Fits n (Workspace.empty n capacity : Workspace α) where
  dimension := rfl
  rows := rfl
  capacity := rfl
  capacity_le := fits
  shrinking := trivial
  directions := by simp [Workspace.empty, Workspace.directions]
  basis := rfl
  coefficients := rfl

omit [Scalar α] in
lemma Fits.length_directions (fits : Fits n ws) :
    ws.directions.length = ws.factorization.size := by
  rw [Workspace.directions, List.length_map, fits.basis]

lemma Fits.shrinking_push (fits : Fits n ws) (room : ws.factorization.size < ws.capacity)
    {w : Vec α} (length : w.length = n) :
    Shrinking n (ws.factorization.push w).reflectors :=
  Factorization.shrinking_push fits.shrinking (room.trans_le fits.capacity_le) length

lemma Fits.length_newColumn (fits : Fits n ws) (room : ws.factorization.size < ws.capacity)
    {w : Vec α} (length : w.length = n) : (newColumn ws w).length = n := by
  apply length_axisImage (fits.shrinking_push room length)
  change _ < (ws.factorization.push w).size
  rw [Factorization.size_push]
  exact Nat.lt_succ_self _

/-- A step keeps the sizes in order. -/
lemma Fits.spaceAfter (fits : Fits n ws) (room : ws.factorization.size < ws.capacity)
    (choice : DirectionSource) {z w : Vec α} (hz : z.length = n) (hw : w.length = n) (r : Vec α) :
    Fits n (spaceAfter ws choice z w r) where
  dimension := fits.dimension
  rows := fits.rows
  capacity := fits.capacity
  capacity_le := fits.capacity_le
  shrinking := fits.shrinking_push room hw
  directions := by
    intro v member
    change v ∈ (ws.record choice z).directions at member
    rw [Workspace.directions_record] at member
    rcases List.mem_append.mp member with old | new
    · exact fits.directions v old
    · rw [List.mem_singleton.mp new, hz]
  basis := by simp [Cycle.spaceAfter, Workspace.record, fits.basis]
  coefficients := by simp [Cycle.spaceAfter, fits.coefficients]

/-! ### The loop -/

/-- A property that every step from a residual other than zero keeps holds after the loop. The loop
takes at least one step, and fewer than it may only if the residual norm is below the tolerance or
zero. It stops at the first norm of this kind. -/
theorem iterate_run {op : Operator α} {ν tolerance : α} {limit : ℕ}
    {P : Workspace α → Progress α → List α → Prop}
    (advance : ∀ ws p norms, P ws p norms → (p.norm == 0) = false → norms.length < limit →
      ∃ ws' p', (step op (.ok ν) p).run ws = (.ok p', ws') ∧ P ws' p' (norms ++ [p'.norm]))
    {m : ℕ} {ws : Workspace α} {p : Progress α} {norms : List α} (start : P ws p norms)
    (nonzero : (p.norm == 0) = false) (positive : 0 < m) (room : norms.length + m ≤ limit) :
    ∃ ws' last more,
      (iterate op (.ok ν) (.ok tolerance) m p).run ws = (.ok (last, more), ws') ∧
      P ws' last (norms ++ more) ∧ 0 < more.length ∧ more.length ≤ m ∧
      more.getLast? = some last.norm ∧
      (more.length = m ∨ last.norm < tolerance ∨ (last.norm == 0) = true) ∧
      ∀ c ∈ more.dropLast, ¬ (c < tolerance ∨ (c == 0) = true) := by
  -- By induction on the steps that are left, over all states. A step either ends the loop or hands
  -- the property on to the rest.
  induction m generalizing ws p norms with
  | zero => omega
  | succ m ih =>
    obtain ⟨ws', p', run, after⟩ := advance ws p norms start nonzero (by omega)
    by_cases stop : p'.norm < tolerance ∨ (p'.norm == 0) = true
    · refine ⟨ws', p', [p'.norm], ?_, after, by simp, by simp, rfl, Or.inr stop, by simp⟩
      rw [iterate, run_bind_of_ok run, run_lift_bind rfl, if_pos stop, run_pure]
    · rcases Nat.eq_zero_or_pos m with zero | more_steps
      · refine ⟨ws', p', [p'.norm], ?_, after, by simp, by simp, rfl, Or.inl (by simp [zero]),
          by simp⟩
        rw [iterate, run_bind_of_ok run, run_lift_bind rfl, if_neg stop, zero, iterate]
        rfl
      · have goes_on : (p'.norm == 0) = false := by
          simpa using fun zero => stop (Or.inr zero)
        obtain ⟨ws'', last, more, rest, kept, some, atMost, final, reason, earlier⟩ :=
          ih after goes_on more_steps (by simp; omega)
        refine ⟨ws'', last, p'.norm :: more, ?_, by simpa using kept, by simp,
          by simpa using atMost, ?_, ?_, ?_⟩
        · rw [iterate, run_bind_of_ok run, run_lift_bind rfl, if_neg stop, run_bind_of_ok rest,
            run_pure]
        · rw [List.getLast?_cons, final]
          rfl
        · rcases reason with all | early
          · exact Or.inl (by simpa using all)
          · exact Or.inr early
        · -- The first norm did not stop the loop, and the later ones are those of the rest.
          intro c member
          rw [List.dropLast_cons_of_ne_nil (List.ne_nil_of_length_pos some)] at member
          rcases List.mem_cons.mp member with first | later
          · rw [first]
            exact stop
          · exact earlier c later

/-- A cycle that starts from norm zero, and one without steps, ends at once. -/
theorem run_of_no_step {op : Operator α} {r : Tensor α} {norm : α} {ν tolerance : Setting α}
    {maxSteps : Int} {ws : Workspace α}
    (none : (norm == 0) = true ∨ (min maxSteps ws.capacity).toNat = 0) :
    (run op r norm ν tolerance maxSteps).run ws
      = (.ok ⟨Vec.zeros ws.dimension, r, if norm == 0 then 0 else norm, 0, []⟩, ws.reset) := by
  unfold run
  rw [run_modify_bind, run_get_bind]
  by_cases zero : (norm == 0) = true
  · rw [if_pos zero, if_pos zero]
    rfl
  · have no_steps := none.resolve_left zero
    simp only
    rw [if_neg zero, if_neg zero,
      if_pos (show (min maxSteps ws.reset.capacity).toNat = 0 from no_steps)]
    rfl

/-- A cycle is its loop on an empty work space, and then the solution of the triangular system. -/
theorem run_eq_ok {op : Operator α} {r : Tensor α} {norm ν tolerance : α} {maxSteps : Int}
    {ws ws' : Workspace α} {last : Progress α} {norms y : List α}
    (nonzero : (norm == 0) = false) (positive : (min maxSteps ws.capacity).toNat ≠ 0)
    (loop : (iterate op (.ok ν) (.ok tolerance) (min maxSteps ws.capacity).toNat
      ⟨r, norm, norm, none⟩).run ws.reset = (.ok (last, norms), ws'))
    (solved : Triangular.leastSquares ws'.factorization.triangular ws'.coefficients = .ok y) :
    (run op r norm (.ok ν) (.ok tolerance) maxSteps).run ws
      = (.ok ⟨linearCombination ws'.dimension y ws'.directions, last.residual, last.norm,
          norms.length, norms⟩, ws') := by
  unfold run
  rw [run_modify_bind, run_get_bind, if_neg (by simp [nonzero])]
  simp only
  rw [if_neg (show ¬(min maxSteps ws.reset.capacity).toNat = 0 from positive)]
  refine (run_bind_of_ok loop).trans ?_
  rw [run_get_bind, run_lift_bind solved, run_pure]

/-! ### Cycles that may fail -/

/-- The operator takes arrays with an entry for each place to such arrays. -/
def GivesFull (op : Operator α) : Prop := ∀ z y, z.Full → op z = .ok y → y.Full

/-- What a step that goes through does to the progress and to the work space: it records a direction
and its image, and takes from the residual the multiple of the new column that it records beside
them. -/
inductive StepsTo (p : Progress α) (ws : Workspace α) : Progress α → Workspace α → Prop where
  | intro (choice : DirectionSource) (z w : Vec α) (a : α) {product r : Tensor α}
      (multiplied : Tensor.product (Tensor.ofVec (newColumn ws w)) p.residual = .ok product)
      (number : product.number = .ok a)
      (subtracted : Tensor.combine (· - ·) p.residual (Tensor.ofVec (smul a (newColumn ws w)))
        = .ok r) :
      StepsTo p ws ⟨r, r.norm, p.norm, some (newColumn ws w)⟩
        { ws.record choice z with
          coefficients := ws.coefficients ++ [a]
          factorization := ws.factorization.push w }

lemma step_stepsTo (op : Operator α) (ν : Setting α) (p : Progress α) (ws : Workspace α) :
    Leads (step op ν p) ws (StepsTo p ws) fun _ => True := by
  unfold step
  refine .lift_bind trivial fun (choice, z) _ => ?_
  rw [leads_bind, leads_get]
  refine .lift_bind trivial fun stored _ => ?_
  rw [leads_bind, leads_set]
  refine .lift_bind trivial fun image _ => .lift_bind trivial fun f extended => ?_
  obtain ⟨-, -, rfl⟩ := (Factorization.extend_eq_ok_iff _ _ _).mp extended
  rw [leads_bind, leads_modify, column_push_last]
  refine .lift_bind trivial fun product multiplied => .lift_bind trivial fun a number => ?_
  rw [leads_bind, leads_modify]
  exact .lift_bind trivial fun r subtracted =>
    .intro choice stored image.entries a multiplied number subtracted

/-- A cycle forgets what is in its work space. -/
lemma run_congr {used other : Workspace α} (same : used.reset = other.reset)
    (op : Operator α) (r : Tensor α) (norm : α) (ν tolerance : Setting α) (maxSteps : ℤ) :
    (run op r norm ν tolerance maxSteps).run used
      = (run op r norm ν tolerance maxSteps).run other := by
  unfold run
  rw [run_modify_bind, run_modify_bind, same]

/-- A computation that leaves a work space for the same dimension and as many steps. -/
def KeepsSize {β : Type} (m : CycleM α β) : Prop :=
  ∀ ws, Leads m ws (fun _ ws' => ws'.reset = ws.reset) fun ws' => ws'.reset = ws.reset

lemma step_keepsSize (op : Operator α) (ν : Setting α) (p : Progress α) :
    KeepsSize (step op ν p) := by
  intro ws
  unfold step
  refine .lift_bind rfl fun (choice, z) _ => ?_
  rw [leads_bind, leads_get]
  refine .lift_bind rfl fun stored _ => ?_
  rw [leads_bind, leads_set]
  refine .lift_bind rfl fun image _ => .lift_bind rfl fun f _ => ?_
  rw [leads_bind, leads_modify]
  refine .lift_bind rfl fun product _ => .lift_bind rfl fun c _ => ?_
  rw [leads_bind, leads_modify]
  exact .lift_bind rfl fun r _ => rfl

lemma iterate_keepsSize (op : Operator α) (ν tolerance : Setting α) (n : ℕ) (p : Progress α) :
    KeepsSize (iterate op ν tolerance n p) := by
  induction n generalizing p with
  | zero => exact fun ws => rfl
  | succ n ih =>
    intro ws
    refine (step_keepsSize op ν p ws).bind fun p' ws' kept => ?_
    refine .lift_bind kept fun bound _ => ?_
    split_ifs
    · exact kept
    · have rest := (ih p' ws').mono (fun _ _ same => same.trans kept) fun _ same => same.trans kept
      exact rest.bind fun _ _ => id

/-- A cycle leaves a work space for the same dimension and as many steps, also where it fails. -/
lemma run_keepsSize (op : Operator α) (r : Tensor α) (norm : α) (ν tolerance : Setting α)
    (maxSteps : ℤ) : KeepsSize (run op r norm ν tolerance maxSteps) := by
  intro ws
  unfold run
  rw [leads_bind, leads_modify, leads_bind, leads_get]
  extract_lets steps
  split_ifs
  · rfl
  · rfl
  refine (iterate_keepsSize op ν tolerance steps _ ws.reset).bind fun _ ws' kept => ?_
  rw [leads_bind, leads_get]
  exact .lift_bind kept fun y _ => kept

end Cycle
end NewtonKrylov
