import NewtonKrylov.Proofs.Reflection
import NewtonKrylov.Factorization

/-!
# The factorization in exact arithmetic

Columns fed to an empty factorization are taken apart into an orthogonal and a triangular factor.
`Factors` is the invariant that carries this from column to column: the reflectors reflect on
shrinking parts, each transformed column is the image of its column under all of them, and a
transformed column is zero below its own place. A new reflection leaves the earlier transformed
columns alone, because it acts on entries that are already zero.

Read as points, the columns of the orthogonal factor are what the isometry of the reflectors takes
to the axes. So they are orthonormal, and the entries of the triangular factor are the components of
the columns along them.
-/

namespace NewtonKrylov

namespace Reflection

variable {α : Type} {n : ℕ}

lemma length_le_of_shrinking {hs : List (Vec α)} (shrinking : Shrinking n hs) : hs.length ≤ n := by
  induction hs generalizing n with
  | nil => exact Nat.zero_le n
  | cons h hs ih =>
    obtain ⟨_, positive, rest⟩ := shrinking
    have tail := ih rest
    simp only [List.length_cons]
    omega

lemma shrinking_append {hs : List (Vec α)} {h : Vec α} (shrinking : Shrinking n hs)
    (room : hs.length < n) (length : h.length = n - hs.length) : Shrinking n (hs ++ [h]) := by
  induction hs generalizing n with
  | nil => exact ⟨by simpa using length, by simpa using room, trivial⟩
  | cons g hs ih =>
    obtain ⟨hg, positive, rest⟩ := shrinking
    simp only [List.length_cons] at room length
    exact ⟨hg, positive, ih rest (by omega) (by omega)⟩

/-- Reflector `j` acts on the entries from `j` on. -/
lemma length_getElem_of_shrinking {hs : List (Vec α)} (shrinking : Shrinking n hs) {j : ℕ}
    (below : j < hs.length) : hs[j].length = n - j := by
  induction hs generalizing n j with
  | nil => simp at below
  | cons h hs ih =>
    obtain ⟨length, positive, rest⟩ := shrinking
    cases j with
    | zero => simpa using length
    | succ j =>
      have tail := ih rest (by simpa using below)
      simp only [List.getElem_cons_succ]
      omega

/-- One reflection more acts on what the others have left of the vector. -/
lemma applyAll_concat [Scalar α] (hs : List (Vec α)) (h v : Vec α) :
    applyAll (hs ++ [h]) v
      = (applyAll hs v).take hs.length ++ image h ((applyAll hs v).drop hs.length) := by
  induction hs generalizing v with
  | nil =>
    simp only [List.nil_append, applyAll, List.length_nil, List.take_zero, List.drop_zero]
    cases image h v <;> rfl
  | cons g hs ih =>
    rw [List.cons_append, applyAll, applyAll]
    cases image g v with
    | nil => rfl
    | cons a t => simp [ih]

lemma Reflectors.append {hs : List (Vec ℝ)} {h : Vec ℝ} (R : Reflectors n hs)
    (room : hs.length < n) (length : h.length = n - hs.length) (isReflector : IsReflector h) :
    Reflectors n (hs ++ [h]) := by
  refine ⟨shrinking_append R.shrinking room length, ?_⟩
  intro g member
  rcases List.mem_append.mp member with old | new
  · exact R.reflect g old
  · rw [List.mem_singleton.mp new]
    exact isReflector

end Reflection

namespace Factorization

open Vec Reflection
open scoped InnerProductSpace

variable {n : ℕ}

/-- The new reflector acts on the entries that the others have left. -/
lemma length_reflector_push {α : Type} [Scalar α] {f : Factorization α}
    (shrinking : Shrinking n f.reflectors) {v : Vec α} (length : v.length = n) :
    (reflector ((applyAll f.reflectors v).drop f.size)).length = n - f.size := by
  rw [length_reflector, List.length_drop, length_applyAll shrinking length]

lemma shrinking_push {α : Type} [Scalar α] {f : Factorization α}
    (shrinking : Shrinking n f.reflectors) (room : f.size < n) {v : Vec α} (length : v.length = n) :
    Shrinking n (f.push v).reflectors :=
  shrinking_append shrinking room (length_reflector_push shrinking length)

/-- A new column leaves the columns of the orthogonal factor before it as they are. -/
lemma column_push {α : Type} [Scalar α] (f : Factorization α) (v : Vec α) {j : ℕ}
    (below : j < f.size) : (f.push v).column j = f.column j :=
  axisImage_append _ _ below

/-! ### Reflecting a block -/

/-- Reflecting a block is the reflection of the entries from `k` on. -/
lemma reflectFrom_eq (k : ℕ) (h c : Vec ℝ) :
    reflectFrom k h c = c.take k ++ image h (c.drop k) := by
  simp only [reflectFrom, image]
  congr 2
  funext a b
  ring

/-- A reflection of zeros changes nothing. -/
lemma reflectFrom_of_zero {k : ℕ} {h c : Vec ℝ} (fits : h.length = c.length - k)
    (zero : ∀ i, k ≤ i → c.getD i 0 = 0) : reflectFrom k h c = c := by
  have rest : c.drop k = zeros h.length := by
    apply List.ext_getElem
    · simp [fits]
    · intro i below _
      have entry := zero (k + i) (Nat.le_add_right k i)
      rw [List.length_drop] at below
      rw [List.getD_eq_getElem _ _ (by omega)] at entry
      simpa [zeros] using entry
  rw [reflectFrom_eq, rest, image_zeros, ← rest, List.take_append_drop]

/-- The reflector of the entries from `k` on leaves only the first of them. -/
lemma getD_reflectFrom_reflector {k : ℕ} {c : Vec ℝ} (room : k < c.length) {i : ℕ} (below : k < i) :
    (reflectFrom k (reflector (c.drop k)) c).getD i 0 = 0 := by
  obtain ⟨a, t, split⟩ : ∃ a t, c.drop k = a :: t := by
    cases shape : c.drop k with
    | nil =>
      have := congrArg List.length shape
      simp at this
      omega
    | cons a t => exact ⟨a, t, rfl⟩
  rw [reflectFrom_eq, split, image_reflector]
  have taken : (c.take k).length = k := by simp; omega
  rw [List.getD_append_right _ _ _ _ (by omega), taken]
  obtain ⟨m, rfl⟩ : ∃ m, i = k + 1 + m := ⟨i - (k + 1), by omega⟩
  rw [show k + 1 + m - k = m + 1 by omega, List.getD_cons_succ]
  by_cases inside : m < t.length
  · simp [zeros, List.getD, inside]
  · simp [zeros, List.getD, inside]

/-- Reflecting what a list of reflections has done is one reflection more. -/
lemma reflectFrom_applyAll (hs : List (Vec ℝ)) (h v : Vec ℝ) :
    reflectFrom hs.length h (applyAll hs v) = applyAll (hs ++ [h]) v := by
  rw [reflectFrom_eq, applyAll_concat]

/-! ### The invariant -/

/-- The factorization holds the factors of the given columns of length `n`. -/
structure Factors (n : ℕ) (f : Factorization ℝ) (inputs : List (Vec ℝ)) : Prop where
  rows : f.rows = n
  size : f.size = inputs.length
  lengths : ∀ a ∈ inputs, a.length = n
  reflectors : Reflectors n f.reflectors
  columns : f.columns = inputs.map (applyAll f.reflectors)
  triangular : ∀ i j, j < i → (f.columns.getD j []).getD i 0 = 0

lemma factors_empty (n capacity : ℕ) : Factors n (empty n capacity) [] where
  rows := rfl
  size := rfl
  lengths := by simp
  reflectors := ⟨trivial, by simp [empty]⟩
  columns := rfl
  triangular := by simp [empty]

namespace Factors

variable {f : Factorization ℝ} {inputs : List (Vec ℝ)} {v : Vec ℝ}

lemma length_columns (F : Factors n f inputs) : f.columns.length = f.size := by
  rw [F.columns, List.length_map, F.size]

lemma length_of_mem_columns (F : Factors n f inputs) {c : Vec ℝ} (member : c ∈ f.columns) :
    c.length = n := by
  rw [F.columns] at member
  obtain ⟨a, input, rfl⟩ := List.mem_map.mp member
  exact length_applyAll F.reflectors.shrinking (F.lengths a input)

/-- A transformed column is zero from the place on where the next reflection acts. -/
lemma zero_of_mem_columns (F : Factors n f inputs) {c : Vec ℝ} (member : c ∈ f.columns) {i : ℕ}
    (below : f.size ≤ i) : c.getD i 0 = 0 := by
  obtain ⟨j, inside, rfl⟩ := List.getElem_of_mem member
  have count := F.length_columns
  have zero := F.triangular i j (by omega)
  rwa [List.getD_eq_getElem _ _ inside] at zero

/-- A new column leaves the transformed columns before it as they are. -/
lemma columns_push (F : Factors n f inputs) (length : v.length = n) :
    (f.push v).columns = f.columns
      ++ [reflectFrom f.size (reflector ((applyAll f.reflectors v).drop f.size))
        (applyAll f.reflectors v)] := by
  have kept : (applyAll f.reflectors v).length = n :=
    length_applyAll F.reflectors.shrinking length
  have unchanged : f.columns.map
      (reflectFrom f.size (reflector ((applyAll f.reflectors v).drop f.size))) = f.columns := by
    conv_rhs => rw [← List.map_id f.columns]
    apply List.map_congr_left
    intro c member
    apply reflectFrom_of_zero
    · rw [length_reflector, List.length_drop, kept, F.length_of_mem_columns member]
    · intro i below
      exact F.zero_of_mem_columns member below
  simp only [Factorization.push, List.map_append, unchanged, List.map_singleton]

/-- Folding in a column keeps the invariant, as long as there are more rows than columns. -/
theorem push (F : Factors n f inputs) (room : f.size < n) (length : v.length = n) :
    Factors n (f.push v) (inputs ++ [v]) := by
  have kept : (applyAll f.reflectors v).length = n :=
    length_applyAll F.reflectors.shrinking length
  have active := length_reflector_push F.reflectors.shrinking length
  have lengths : ∀ a ∈ inputs ++ [v], a.length = n := by
    intro a member
    rcases List.mem_append.mp member with old | new
    · exact F.lengths a old
    · rw [List.mem_singleton.mp new, length]
  refine ⟨F.rows, by simp [F.size], lengths,
    F.reflectors.append room active (isReflector_reflector _), ?_, ?_⟩
  · change (f.columns ++ [applyAll f.reflectors v]).map _ = _
    rw [F.columns, ← List.map_singleton, ← List.map_append, List.map_map]
    apply List.map_congr_left
    intro a member
    exact reflectFrom_applyAll f.reflectors _ a
  · intro i j below
    have count := F.length_columns
    rw [F.columns_push length]
    -- Earlier columns are unchanged, the new one is cleared by its own reflector, and there are no
    -- others.
    rcases lt_trichotomy j f.size with old | new | outside
    · rw [List.getD_append _ _ _ _ (by omega)]
      exact F.triangular i j below
    · rw [List.getD_append_right _ _ _ _ (by omega), count, new, Nat.sub_self,
        List.getD_cons_zero]
      exact getD_reflectFrom_reflector (by omega) (by omega)
    · have beyond (c : Vec ℝ) : (f.columns ++ [c]).getD j [] = [] :=
        List.getD_eq_default _ _ (by simp; omega)
      rw [beyond]
      simp

end Factors

/-! ### The factors -/

/-- Column `j` of the orthogonal factor, as a point. -/
noncomputable def columnPoint (n : ℕ) (f : Factorization ℝ) (j : ℕ) : Space n :=
  toSpace n (f.column j)

/-- The entry of the transformed columns in row `i` and column `j`. -/
def entry (f : Factorization ℝ) (i j : ℕ) : ℝ := (f.columns.getD j []).getD i 0

namespace Factors

variable {f : Factorization ℝ} {inputs : List (Vec ℝ)}

lemma length_column (F : Factors n f inputs) {j : ℕ} (below : j < f.size) :
    (f.column j).length = n :=
  length_axisImage F.reflectors.shrinking below

lemma size_le (F : Factors n f inputs) : f.size ≤ n :=
  length_le_of_shrinking F.reflectors.shrinking

lemma rotation_columnPoint (F : Factors n f inputs) {j : ℕ} (below : j < f.size) :
    rotation F.reflectors (f.columnPoint n j) = toSpace n (axis n j) :=
  rotation_axisImage F.reflectors below

/-- The columns of the orthogonal factor have norm one and are orthogonal to each other. -/
theorem inner_columnPoint (F : Factors n f inputs) {i j : ℕ} (hi : i < f.size)
    (hj : j < f.size) :
    ⟪f.columnPoint n i, f.columnPoint n j⟫_ℝ = if i = j then 1 else 0 := by
  have fits := F.size_le
  rw [← (rotation F.reflectors).inner_map_map, F.rotation_columnPoint hi,
    F.rotation_columnPoint hj, inner_axis (by omega)]
  have component := toSpace_axis_apply (n := n) j ⟨i, by omega⟩
  rwa [toSpace_apply] at component

lemma columns_getD (F : Factors n f inputs) {j : ℕ} (hj : j < f.size) :
    f.columns.getD j [] = applyAll f.reflectors (inputs.getD j []) := by
  have count := F.size
  rw [F.columns, List.getD_eq_getElem _ _ (by simp; omega), List.getElem_map,
    List.getD_eq_getElem _ _ (by omega)]

lemma length_inputs_getD (F : Factors n f inputs) {j : ℕ} (hj : j < f.size) :
    (inputs.getD j []).length = n := by
  have count := F.size
  rw [List.getD_eq_getElem _ _ (by omega)]
  exact F.lengths _ (List.getElem_mem _)

/-- A column is the combination of the orthogonal factor with the entries of its transformed
column. -/
theorem input_eq_combination (F : Factors n f inputs) {j : ℕ} (hj : j < f.size) :
    toSpace n (inputs.getD j []) = combination n (f.entry · j) (f.columnPoint n) f.size := by
  apply (rotation F.reflectors).injective
  have images : rotation F.reflectors (combination n (f.entry · j) (f.columnPoint n) f.size)
      = ∑ i ∈ Finset.range f.size, f.entry i j • toSpace n (axis n i) := by
    simp only [combination, map_sum, map_smul]
    apply Finset.sum_congr rfl
    intro i member
    rw [F.rotation_columnPoint (Finset.mem_range.mp member)]
  rw [images, ← toSpace_applyAll F.reflectors (F.length_inputs_getD hj), ← F.columns_getD hj]
  ext i
  rw [toSpace_apply, WithLp.ofLp_sum, Finset.sum_apply]
  simp only [PiLp.smul_apply, toSpace_axis_apply, smul_eq_mul, mul_ite, mul_one, mul_zero,
    Finset.sum_ite_eq, Finset.mem_range]
  split_ifs with inside
  · rfl
  · exact F.triangular i j (by omega)

end Factors

/-! ### Columns fed in order -/

lemma create_of_le {rows capacity : ℕ} (fits : capacity ≤ rows) :
    create rows capacity = .ok (empty rows capacity : Factorization ℝ) := by
  unfold create
  rw [if_neg (by omega), if_neg (by omega), Int.toNat_natCast, Int.toNat_natCast]

/-- Fold in a list of vectors, one after the other. -/
def extendAll {α : Type} [Scalar α] (f : Factorization α) (columns : List (Vec α)) :
    Except Error (Factorization α) :=
  columns.foldlM (fun g c => g.extend (Tensor.ofVec c)) f

/-- Columns for which there is room all go in, and the factorization then holds their factors. -/
theorem Factors.extendAll {f : Factorization ℝ} {inputs : List (Vec ℝ)} (F : Factors n f inputs)
    (fits : f.capacity ≤ n) {columns : List (Vec ℝ)} (lengths : ∀ c ∈ columns, c.length = n)
    (room : f.size + columns.length ≤ f.capacity) :
    ∃ g, f.extendAll columns = .ok g ∧ g.capacity = f.capacity
      ∧ Factors n g (inputs ++ columns) := by
  induction columns generalizing f inputs with
  | nil => exact ⟨f, rfl, rfl, by simpa using F⟩
  | cons c columns ih =>
    simp only [List.length_cons] at room
    have length := lengths c List.mem_cons_self
    have step : f.extend (Tensor.ofVec c) = .ok (f.push c) := by
      rw [extend_eq_ok_iff]
      exact ⟨by omega, by rw [F.rows, ← length]; rfl, rfl⟩
    obtain ⟨g, run, capacity, G⟩ := ih (F.push (by omega) length)
      (by simpa using fits) (fun a member => lengths a (List.mem_cons_of_mem c member))
      (by simp; omega)
    refine ⟨g, ?_, by simpa using capacity, by simpa using G⟩
    rw [Factorization.extendAll, List.foldlM_cons, step]
    exact run

/-! ### The factors as matrices -/

namespace Factors

variable {f : Factorization ℝ} {inputs : List (Vec ℝ)}

lemma toMatrix_orthogonal (F : Factors n f inputs) (i : Fin n) (j : Fin f.size) :
    f.orthogonal.toMatrix n f.size i j = f.columnPoint n j i := by
  have column : ((List.range f.size).map f.column).getD j [] = f.column j := by
    simp [List.getD]
  rw [orthogonal, F.rows, Rows.toMatrix_ofColumns, column]
  rfl

lemma toMatrix_triangular (F : Factors n f inputs) (i j : Fin f.size) :
    f.triangular.toMatrix f.size f.size i j = f.entry i j := by
  have count := F.length_columns
  have row : f.triangular.getD i []
      = f.columns.zipIdx.map fun (c, k) => if k < i then 0 else c.getD i 0 := by
    simp [Factorization.triangular, List.getD]
  have inside : (j : ℕ) < f.columns.length := by omega
  rw [Rows.toMatrix_apply, row, List.getD_eq_getElem _ _ (by simpa using inside),
    List.getElem_map, List.getElem_zipIdx]
  simp only [Nat.zero_add]
  split_ifs with below
  · exact (F.triangular i j below).symm
  · rw [entry, List.getD_eq_getElem f.columns _ inside]

/-- The entries of the triangular factor are those of the transformed columns. -/
lemma entry_triangular (F : Factors n f inputs) {i j : ℕ} (hi : i < f.size) (hj : j < f.size) :
    f.triangular.entry i j = f.entry i j :=
  F.toMatrix_triangular ⟨i, hi⟩ ⟨j, hj⟩

/-- The columns of the orthogonal factor are orthonormal. -/
theorem transpose_orthogonal_mul_orthogonal (F : Factors n f inputs) :
    (f.orthogonal.toMatrix n f.size).transpose * f.orthogonal.toMatrix n f.size = 1 := by
  ext i j
  rw [Matrix.mul_apply, Matrix.one_apply]
  simp only [Matrix.transpose_apply, F.toMatrix_orthogonal]
  have product := F.inner_columnPoint i.isLt j.isLt
  rw [PiLp.inner_apply] at product
  simpa [mul_comm, Fin.ext_iff] using product

/-- The product of the factors has the given columns. -/
theorem orthogonal_mul_triangular (F : Factors n f inputs) :
    f.orthogonal.toMatrix n f.size * f.triangular.toMatrix f.size f.size
      = .of fun i j => (inputs.getD j []).getD i 0 := by
  ext i j
  have column := congrArg (fun x : Space n => x i) (F.input_eq_combination j.isLt)
  simp only [combination, WithLp.ofLp_sum, Finset.sum_apply, PiLp.smul_apply, toSpace_apply,
    smul_eq_mul] at column
  rw [Matrix.mul_apply, Matrix.of_apply, column,
    Finset.sum_range fun m => f.entry m j * f.columnPoint n m i]
  apply Finset.sum_congr rfl
  intro m _
  rw [F.toMatrix_orthogonal, F.toMatrix_triangular, mul_comm]

lemma hasShape_orthogonal (F : Factors n f inputs) :
    f.orthogonal.HasShape n f.size := by
  have shape := Rows.hasShape_ofColumns n ((List.range f.size).map f.column)
  rw [List.length_map, List.length_range] at shape
  rwa [orthogonal, F.rows]

lemma hasShape_triangular (F : Factors n f inputs) :
    f.triangular.HasShape f.size f.size := by
  constructor
  · simp [Factorization.triangular]
  · intro row member
    obtain ⟨i, _, rfl⟩ := List.mem_map.mp member
    simp [F.length_columns]

/-- The stored columns need no cleaning: they are zero below the diagonal as they stand. -/
theorem columnArena_below_diagonal (F : Factors n f inputs) (i : Fin n) (j : Fin f.capacity)
    (used : (j : ℕ) < f.size) (below : (j : ℕ) < i) :
    f.columnArena.toMatrix n f.capacity i j = 0 := by
  have count := F.length_columns
  rw [columnArena, arena, F.rows, Rows.toMatrix_ofColumns, List.getD_append _ _ _ _ (by omega)]
  exact F.triangular i j below

end Factors

/-- A new factorization, and one that has forgotten its columns, takes up every sequence of columns
it has room for, dependent and zero columns included. Its orthogonal factor has orthonormal columns,
its triangular factor is upper triangular, their product has the given columns, and the stored
columns are zero below the diagonal before anything there is left out. -/
theorem extendAll_orthogonal_triangular {rows capacity : ℕ} (fits : capacity ≤ rows)
    {start : Factorization ℝ}
    (unused : create rows capacity = .ok start ∨
      ∃ used : Factorization ℝ, used.rows = rows ∧ used.capacity = capacity ∧ used.reset = start)
    (columns : List (Vec ℝ)) (count : columns.length ≤ capacity)
    (lengths : ∀ c ∈ columns, c.length = rows) :
    ∃ f, start.extendAll columns = .ok f ∧ f.size = columns.length ∧
      f.orthogonal.HasShape rows columns.length ∧
      (f.orthogonal.toMatrix rows columns.length).transpose
        * f.orthogonal.toMatrix rows columns.length = 1 ∧
      f.triangular.HasShape columns.length columns.length ∧
      (∀ i j, j < i → f.triangular.toMatrix columns.length columns.length i j = 0) ∧
      f.orthogonal.toMatrix rows columns.length
        * f.triangular.toMatrix columns.length columns.length
          = .of (fun i j => (columns.getD j []).getD i 0) ∧
      ∀ (i : Fin rows) (j : Fin capacity), (j : ℕ) < columns.length → (j : ℕ) < i →
        f.columnArena.toMatrix rows capacity i j = 0 := by
  have new : start = empty rows capacity := by
    rcases unused with created | ⟨used, hrows, hcapacity, rfl⟩
    · rw [create_of_le fits] at created
      exact (Except.ok.inj created).symm
    · rw [reset, hrows, hcapacity]
  subst new
  obtain ⟨f, run, capacity_eq, F⟩ :=
    (factors_empty rows capacity).extendAll fits lengths
      (by rw [size_empty, Nat.zero_add]; exact count)
  rw [List.nil_append] at F
  have size := F.size
  have arena := F.columnArena_below_diagonal
  have capacity_eq : f.capacity = capacity := capacity_eq
  rw [capacity_eq, size] at arena
  have lower (i j : Fin f.size) (below : j < i) :
      f.triangular.toMatrix f.size f.size i j = 0 := by
    rw [F.toMatrix_triangular]
    exact F.triangular i j below
  have orthonormal := F.transpose_orthogonal_mul_orthogonal
  have product := F.orthogonal_mul_triangular
  have shapes := And.intro F.hasShape_orthogonal F.hasShape_triangular
  rw [size] at lower orthonormal product shapes
  exact ⟨f, run, size, shapes.1, orthonormal, shapes.2, lower, product, arena⟩

/-- A zero column, and a column with a multiple of itself, go into a factorization that was used
before. -/
theorem extendAll_orthogonal_triangular_dependent :
    ∃ f, (reset (α := ℝ) ⟨3, 3, [[1, 0, 0]], [[-2, 0, 0]]⟩).extendAll
        [[0, 0, 0], [3, 4, 0], [6, 8, 0]] = .ok f ∧ f.size = 3 ∧
      (f.orthogonal.toMatrix 3 3).transpose * f.orthogonal.toMatrix 3 3 = 1 ∧
      (∀ i j, j < i → f.triangular.toMatrix 3 3 i j = 0) ∧
      f.orthogonal.toMatrix 3 3 * f.triangular.toMatrix 3 3 = !![0, 3, 6; 0, 4, 8; 0, 0, 0] := by
  obtain ⟨f, run, size, _, orthonormal, _, lower, product, _⟩ :=
    extendAll_orthogonal_triangular (le_refl 3)
      (Or.inr ⟨⟨3, 3, [[1, 0, 0]], [[-2, 0, 0]]⟩, rfl, rfl, rfl⟩)
      [[0, 0, 0], [3, 4, 0], [6, 8, 0]] (by decide) (by simp)
  refine ⟨f, run, size, orthonormal, lower, product.trans ?_⟩
  ext i j
  fin_cases i <;> fin_cases j <;> rfl

end Factorization
end NewtonKrylov
