import NewtonKrylov.Proofs.Krylov.Run
import NewtonKrylov.Proofs.LeastSquares

/-!
# The steps of a cycle

Nothing here depends on the arithmetic. If the operator takes vectors of the dimension to such
vectors, a cycle goes through, whatever numbers it meets on the way. `Running` is the invariant of
its loop and `Counted` what it has come to: a norm, a direction, an image and a column for each
step, and no more steps than there is room for.
-/

namespace NewtonKrylov

variable {α : Type} {n : ℕ}

/-- The operator goes through on vectors of length `n`, and their images have this length. -/
def KeepsLength (n : ℕ) (op : Operator α) : Prop :=
  ∀ z : Vec α, z.length = n →
    ∃ w : Vec α, op (Tensor.ofVec z) = .ok (Tensor.ofVec w) ∧ w.length = n

namespace KeepsLength

variable {f g : Operator α}

lemma ok : KeepsLength n (Except.ok : Operator α) := fun z length => ⟨z, rfl, length⟩

/-- An operator after another keeps the length if both do. -/
lemma comp (hf : KeepsLength n f) (hg : KeepsLength n g) :
    KeepsLength n (fun z => do f (← g z)) := by
  intro z length
  obtain ⟨v, inner, hv⟩ := hg z length
  obtain ⟨w, outer, hw⟩ := hf v hv
  refine ⟨w, ?_, hw⟩
  simp only [inner, ok_bind, outer]

end KeepsLength

namespace Factorization

variable [Scalar α] (f : Factorization α)

@[simp] lemma length_columns_push (w : Vec α) :
    (f.push w).columns.length = f.columns.length + 1 := by
  simp [push]

@[simp] lemma length_triangular : f.triangular.length = f.size := by
  simp [triangular]

variable {f}

/-- With a transformed column for each reflection the triangular factor has as many columns as
rows. -/
lemma square_triangular (columns : f.columns.length = f.size) (positive : 0 < f.size) :
    Triangular.Square f.triangular := by
  constructor
  · apply List.ne_nil_of_length_pos
    rwa [length_triangular]
  · intro row member
    rw [length_triangular]
    obtain ⟨i, _, rfl⟩ := List.mem_map.mp member
    rw [List.length_map, List.length_zipIdx, columns]

end Factorization

namespace Cycle

open Vec

variable [Scalar α]

/-- Each step has applied the operator once, to its direction, and the factorization is that of the
images. -/
def Applied (op : Operator α) (ws : Workspace α) : Prop :=
  ∃ images : List (Vec α),
    List.Forall₂ (fun z w => op (Tensor.ofVec z) = .ok (Tensor.ofVec w)) ws.directions images ∧
      ws.factorization
        = images.foldl Factorization.push (Factorization.empty ws.dimension ws.capacity)

variable {op : Operator α} {ws : Workspace α} {p : Progress α} {norms : List α}

lemma applied_empty (op : Operator α) (n capacity : ℕ) :
    Applied op (.empty n capacity) := ⟨[], .nil, rfl⟩

lemma Applied.spaceAfter (applied : Applied op ws) (choice : DirectionSource) {z w : Vec α}
    (image : op (Tensor.ofVec z) = .ok (Tensor.ofVec w)) (r : Vec α) :
    Applied op (spaceAfter ws choice z w r) := by
  obtain ⟨images, each, factorization⟩ := applied
  refine ⟨images ++ [w], ?_, ?_⟩
  · change List.Forall₂ _ (ws.record choice z).directions _
    rw [Workspace.directions_record]
    exact List.rel_append each (.cons image .nil)
  · rw [List.foldl_append]
    exact congrArg (Factorization.push · w) factorization

/-! ### The loop -/

/-- The invariant of the loop, for a problem of dimension `n`. -/
structure Running (n : ℕ) (op : Operator α) (ws : Workspace α) (p : Progress α)
    (norms : List α) : Prop where
  fits : Fits n ws
  columns : ws.factorization.columns.length = ws.factorization.size
  applied : Applied op ws
  residual : ∃ r : Vec α, p.residual = Tensor.ofVec r ∧ r.length = n
  last : ∀ q ∈ p.column, q.length = n
  norms : norms.length = ws.factorization.size

lemma running_start {capacity : ℕ} (fits : capacity ≤ n) (op : Operator α) {r : Vec α}
    (length : r.length = n) (norm : α) :
    Running n op (.empty n capacity) ⟨Tensor.ofVec r, norm, norm, none⟩ [] where
  fits := fits_empty fits
  columns := rfl
  applied := applied_empty op n capacity
  residual := ⟨r, rfl, length⟩
  last := by simp
  norms := rfl

/-- A step from the invariant goes through, and keeps it. -/
theorem Running.step (keeps : KeepsLength n op) (running : Running n op ws p norms) (ν : α)
    (room : ws.factorization.size < ws.capacity) :
    ∃ ws' p', (step op (.ok ν) p).run ws = (.ok p', ws') ∧
      Running n op ws' p' (norms ++ [p'.norm]) ∧ ws'.capacity = ws.capacity := by
  have fits := running.fits
  obtain ⟨r, residual, hr⟩ := running.residual
  have hz : (chosen ν p r).2.length = n := length_chosen hr running.last ν
  obtain ⟨w, image, hw⟩ := keeps _ hz
  have hq := fits.length_newColumn room hw
  refine ⟨_, _, step_run residual (by rw [hr, fits.dimension]) (by rw [hz, fits.dimension]) image
    (by rw [hw, fits.rows]) (by rw [fits.capacity]; exact room) (by rw [hq, fits.dimension]),
    ?_, rfl⟩
  constructor
  · exact fits.spaceAfter room _ hz hw r
  · change (ws.factorization.push w).columns.length = (ws.factorization.push w).size
    rw [Factorization.length_columns_push, Factorization.size_push, running.columns]
  · exact running.applied.spaceAfter _ image r
  · refine ⟨_, rfl, ?_⟩
    rw [length_sub, length_smul, hr, hq, min_self]
  · intro q member
    rw [← Option.some.inj member, hq]
  · change (norms ++ _).length = (ws.factorization.push w).size
    rw [List.length_append, running.norms, Factorization.size_push, List.length_singleton]

/-- The loop goes through with at least one step, and ends with the last of its norms. -/
theorem iterate_running (keeps : KeepsLength n op) {capacity : ℕ} (fits : capacity ≤ n) {r : Vec α}
    (length : r.length = n) {norm : α} (nonzero : (norm == 0) = false) (ν tolerance : α) {m : ℕ}
    (positive : 0 < m) (room : m ≤ capacity) :
    ∃ ws last norms,
      (iterate op (.ok ν) (.ok tolerance) m ⟨Tensor.ofVec r, norm, norm, none⟩).run
        (.empty n capacity) = (.ok (last, norms), ws) ∧
      Running n op ws last norms ∧ ws.capacity = capacity ∧
      0 < norms.length ∧ norms.length ≤ m ∧ norms.getLast? = some last.norm := by
  -- The capacity is carried along, as the room for a step is counted in the norms.
  have advance : ∀ ws p norms, Running n op ws p norms ∧ ws.capacity = capacity →
      (p.norm == 0) = false → norms.length < capacity →
      ∃ ws' p', (step op (.ok ν) p).run ws = (.ok p', ws') ∧
        Running n op ws' p' (norms ++ [p'.norm]) ∧ ws'.capacity = capacity := by
    rintro ws p norms ⟨running, rfl⟩ - below
    exact running.step keeps ν (running.norms ▸ below)
  obtain ⟨ws, last, norms, loop, ⟨running, same⟩, some, atMost, final, -⟩ :=
    iterate_run advance ⟨running_start fits op length norm, rfl⟩ nonzero positive
      (by simpa using room)
  rw [List.nil_append] at running
  exact ⟨ws, last, norms, loop, running, same, some, atMost, final⟩

/-! ### The end of a cycle -/

/-- What a cycle has come to on a work space of a given capacity. -/
structure Counted (n capacity : ℕ) (op : Operator α) (ws : Workspace α) (out : Outcome α) :
    Prop where
  fits : Fits n ws
  capacity : ws.capacity = capacity
  applied : Applied op ws
  steps : out.steps = ws.factorization.size
  history : out.history.length = out.steps
  last : 0 < out.steps → out.history.getLast? = some out.norm
  update : out.update.length = n
  residual : ∃ r : Vec α, out.residual = Tensor.ofVec r ∧ r.length = n

lemma Counted.reset {capacity : ℕ} {out : Outcome α} (counted : Counted n capacity op ws out) :
    ws.reset = .empty n capacity := by
  rw [Workspace.reset, counted.fits.dimension, counted.capacity]

/-- A cycle without steps has counted none. -/
lemma counted_empty {capacity : ℕ} (fits : capacity ≤ n) (op : Operator α) {r : Vec α}
    (length : r.length = n) (norm : α) :
    Counted n capacity op (.empty n capacity) ⟨zeros n, Tensor.ofVec r, norm, 0, []⟩ where
  fits := fits_empty fits
  capacity := rfl
  applied := applied_empty op n capacity
  steps := rfl
  history := rfl
  last := by simp
  update := length_zeros n
  residual := ⟨r, rfl, length⟩

/-- A cycle goes through, takes no more steps than it may, and takes one if it may take any from a
residual other than zero. -/
theorem run_counted (keeps : KeepsLength n op) {capacity : ℕ} (fits : capacity ≤ n)
    {used : Workspace α} (empty : used.reset = .empty n capacity) {r : Vec α}
    (length : r.length = n) (norm ν tolerance : α) (maxSteps : ℤ) :
    ∃ out ws, (run op (Tensor.ofVec r) norm (.ok ν) (.ok tolerance) maxSteps).run used
        = (.ok out, ws) ∧
      Counted n capacity op ws out ∧ out.steps ≤ (min maxSteps capacity).toNat ∧
      ((norm == 0) = false → (min maxSteps capacity).toNat ≠ 0 → 0 < out.steps) := by
  obtain rfl : used.dimension = n := congrArg Workspace.dimension empty
  obtain rfl : used.capacity = capacity := congrArg Workspace.capacity empty
  by_cases none : (norm == 0) = true ∨ (min maxSteps used.capacity).toNat = 0
  · refine ⟨_, _, run_of_no_step none, ?_, Nat.zero_le _, fun nonzero some_step => ?_⟩
    · rw [empty]
      exact counted_empty fits op length _
    · rcases none with zero | no_step
      · exact absurd (nonzero.symm.trans zero) Bool.false_ne_true
      · exact absurd no_step some_step
  · obtain ⟨nonzero, some_step⟩ := not_or.mp none
    rw [Bool.not_eq_true] at nonzero
    obtain ⟨ws, last, norms, loop, running, same, positive, atMost, final⟩ :=
      iterate_running keeps fits length nonzero ν tolerance (Nat.pos_of_ne_zero some_step)
        (by omega)
    rw [← empty] at loop
    have count := running.norms
    -- As many columns as steps: the least-squares problem is square, and has a solution.
    have square := Factorization.square_triangular running.columns (by omega)
    obtain ⟨y, solved⟩ := Triangular.exists_leastSquares square
      (running.fits.coefficients.trans (Factorization.length_triangular _).symm)
    refine ⟨_, ws, run_eq_ok nonzero some_step loop solved, ?_, atMost, fun _ _ => positive⟩
    exact {
      fits := running.fits
      capacity := same
      applied := running.applied
      steps := count
      history := rfl
      last := fun _ => final
      update := by
        rw [running.fits.dimension]
        exact length_linearCombination y running.fits.directions
      residual := running.residual }

end Cycle

end NewtonKrylov
