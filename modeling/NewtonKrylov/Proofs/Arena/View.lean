import NewtonKrylov.Arena
import NewtonKrylov.Proofs.Effects
import NewtonKrylov.Proofs.Factorization

/-!
# The arena of a factorization

A factorization is a list of reflectors and a list of columns. Its arena has them in the first
columns of two matrices, a reflector with zeros in front, and zeros in the columns behind. `toArena`
writes them there, and by `extend_run`, `reset_run`, `column_toArena` and `triangular_toArena` what
is computed in place is what is computed with the lists: the slices that are read are the
reflectors, and those that are written end up where the new ones belong.

Nothing here depends on the arithmetic.
-/

namespace NewtonKrylov

open Vec Reflection

/-! ### Lists with room behind -/

section Padded

variable {β : Type} (m : ℕ) (z : β) (xs : List β)

/-- A list filled up to length `m`. -/
def fillUp : List β := xs ++ List.replicate (m - xs.length) z

variable {m xs}

lemma length_fillUp (fits : xs.length ≤ m) : (fillUp m z xs).length = m := by
  simp [fillUp]
  omega

lemma getElem?_fillUp {i : ℕ} (inside : i < xs.length) : (fillUp m z xs)[i]? = xs[i]? :=
  List.getElem?_append_left inside

/-- Behind the list there is nothing else. -/
lemma drop_fillUp {k : ℕ} (used : xs.length = k) :
    (fillUp m z xs).drop k = List.replicate (m - k) z := by
  rw [fillUp, List.drop_left' used, used]

/-- The first free place. -/
lemma fillUp_eq_cons (room : xs.length < m) :
    fillUp m z xs = xs ++ z :: List.replicate (m - (xs.length + 1)) z := by
  rw [fillUp, ← List.replicate_succ]
  congr 2
  omega

lemma fillUp_concat (x : β) :
    fillUp m z (xs ++ [x]) = xs ++ x :: List.replicate (m - (xs.length + 1)) z := by
  simp [fillUp]

lemma set_fillUp (room : xs.length < m) (x : β) :
    (fillUp m z xs).set xs.length x = fillUp m z (xs ++ [x]) := by
  rw [fillUp_eq_cons z room, fillUp_concat]
  simp

lemma modify_length_append (xs ys : List β) (f : β → β) :
    (xs ++ z :: ys).modify xs.length f = xs ++ f z :: ys := by
  induction xs with
  | nil => rfl
  | cons x xs ih => simp [ih]

lemma modify_fillUp (room : xs.length < m) (f : β → β) :
    (fillUp m z xs).modify xs.length f = fillUp m z (xs ++ [f z]) := by
  rw [fillUp_eq_cons z room, fillUp_concat, modify_length_append]

lemma map_take_fillUp (f : β → β) :
    ((fillUp m z xs).take xs.length).map f ++ (fillUp m z xs).drop xs.length
      = fillUp m z (xs.map f) := by
  simp [fillUp]

lemma getD_fillUp_of_le {j : ℕ} (behind : xs.length ≤ j) (inside : j < m) (d : β) :
    (fillUp m z xs).getD j d = z := by
  rw [fillUp, List.getD_append_right _ _ _ _ behind, List.getD_replicate]
  omega

/-- A matrix filled up with columns of zeros has columns of one length. -/
lemma length_of_mem_fillUp {α : Type} [Scalar α] {n m : ℕ} {cs : List (Vec α)}
    (lengths : ∀ c ∈ cs, c.length = n) {c : Vec α} (member : c ∈ fillUp m (zeros n) cs) :
    c.length = n := by
  rcases List.mem_append.mp member with used | free
  · exact lengths c used
  · rw [List.eq_of_mem_replicate free, length_zeros]

/-- Zeros written into every column. -/
lemma map_zero_fillUp {α : Type} [Scalar α] {n m : ℕ} {cs : List (Vec α)} (fits : cs.length ≤ m)
    (lengths : ∀ c ∈ cs, c.length = n) :
    (fillUp m (zeros n) cs).map (fun c => c.map fun _ => (0 : α)) = fillUp m (zeros n) [] := by
  have none : fillUp m (zeros n) ([] : List (Vec α)) = List.replicate m (zeros n) := by
    simp [fillUp]
  rw [none, List.eq_replicate_iff]
  refine ⟨by rw [List.length_map, length_fillUp _ fits], ?_⟩
  intro c member
  obtain ⟨b, old, rfl⟩ := List.mem_map.mp member
  rw [List.map_const', length_of_mem_fillUp lengths old, zeros]

end Padded

namespace Factorization

variable {α : Type} [Scalar α]

/-! ### Sizes -/

/-- The parts of a factorization fit together. -/
structure Shaped (f : Factorization α) : Prop where
  shrinking : Shrinking f.rows f.reflectors
  count : f.columns.length = f.size
  lengths : ∀ c ∈ f.columns, c.length = f.rows
  size_le : f.size ≤ f.capacity
  capacity_le : f.capacity ≤ f.rows

omit [Scalar α] in
lemma shaped_empty {n m : ℕ} (fits : m ≤ n) : (empty n m : Factorization α).Shaped where
  shrinking := trivial
  count := rfl
  lengths := by simp [empty]
  size_le := Nat.zero_le m
  capacity_le := fits

lemma length_reflectFrom {k : ℕ} {h c : Vec α} (fits : h.length = c.length - k) :
    (reflectFrom k h c).length = c.length := by
  simp [reflectFrom, fits]
  omega

namespace Shaped

variable {f : Factorization α} (shaped : f.Shaped)
include shaped

lemma push (room : f.size < f.capacity) {v : Vec α} (length : v.length = f.rows) :
    (f.push v).Shaped where
  shrinking := shrinking_push shaped.shrinking (room.trans_le shaped.capacity_le) length
  count := by
    rw [size_push, ← shaped.count]
    simp [Factorization.push]
  lengths := by
    intro c member
    obtain ⟨w, old, rfl⟩ := List.mem_map.mp member
    have same : w.length = f.rows := by
      rcases List.mem_append.mp old with before | new
      · exact shaped.lengths w before
      · rw [List.mem_singleton.mp new]
        exact length_applyAll shaped.shrinking length
    rw [length_reflectFrom, same]
    · rfl
    · rw [length_reflector_push shaped.shrinking length, same]
  size_le := by
    rw [size_push]
    exact room
  capacity_le := shaped.capacity_le

end Shaped

/-! ### The arena -/

/-- The columns of the matrix of reflectors, as far as they are in use. -/
def reflectorColumns (f : Factorization α) : List (Vec α) :=
  f.reflectors.zipIdx.map fun (h, m) => zeros m ++ h

/-- The factorization in place. -/
def toArena (f : Factorization α) : Arena α where
  rows := f.rows
  capacity := f.capacity
  reflectors := fillUp f.capacity (zeros f.rows) f.reflectorColumns
  columns := fillUp f.capacity (zeros f.rows) f.columns
  size := f.size

@[simp] lemma rows_toArena (f : Factorization α) : f.toArena.rows = f.rows := rfl

@[simp] lemma capacity_toArena (f : Factorization α) : f.toArena.capacity = f.capacity := rfl

@[simp] lemma size_toArena (f : Factorization α) : f.toArena.size = f.size := rfl

@[simp] lemma length_reflectorColumns (f : Factorization α) :
    f.reflectorColumns.length = f.size := by
  simp [reflectorColumns, size]

/-- The matrices of the arena are those of the factorization. -/
lemma ofColumns_toArena (f : Factorization α) :
    Rows.ofColumns f.rows f.toArena.reflectors = f.reflectorArena ∧
      Rows.ofColumns f.rows f.toArena.columns = f.columnArena :=
  ⟨rfl, rfl⟩

lemma reflectorColumns_push (f : Factorization α) (v : Vec α) :
    (f.push v).reflectorColumns = f.reflectorColumns
      ++ [zeros f.size ++ reflector ((applyAll f.reflectors v).drop f.size)] := by
  simp [reflectorColumns, Factorization.push, size, List.zipIdx_append]

/-! ### Reading -/

/-- Reflector `m` begins at row `m` of its column. -/
lemma getD_reflectors_toArena (f : Factorization α) {m : ℕ} (inside : m < f.size) :
    f.toArena.reflectors.getD m [] = zeros m ++ f.reflectors.getD m [] := by
  have used : m < f.reflectors.length := inside
  rw [List.getD_eq_getElem?_getD, toArena, getElem?_fillUp _ (by simpa using inside),
    List.getD_eq_getElem _ _ used]
  simp [reflectorColumns, used]

lemma reflectAt_toArena (f : Factorization α) (v : Vec α) {m : ℕ} (inside : m < f.size) :
    f.toArena.reflectAt v m = v.take m ++ image (f.reflectors.getD m []) (v.drop m) := by
  rw [Arena.reflectAt, f.getD_reflectors_toArena inside, List.drop_left' (length_zeros m),
    Arena.writeFrom]

/-- The loop over the reflectors applies their product. -/
lemma foldl_reflectAt (f : Factorization α) (v : Vec α) {k : ℕ} (atMost : k ≤ f.size) :
    (List.range k).foldl f.toArena.reflectAt v = applyAll (f.reflectors.take k) v := by
  induction k with
  | zero => rfl
  | succ k ih =>
    have used : k < f.reflectors.length := atMost
    have before : (f.reflectors.take k).length = k := by
      rw [List.length_take]
      omega
    rw [List.range_succ, List.foldl_append, ih (by omega), List.foldl_cons, List.foldl_nil,
      f.reflectAt_toArena _ atMost, List.take_succ_eq_append_getElem used, applyAll_concat, before,
      List.getD_eq_getElem _ _ used]

/-- The loop that takes an axis back through the reflections, from row `i` on. Above this row there
are only zeros. -/
lemma foldl_reverse_reflectAt (f : Factorization α) {i d : ℕ} (inside : i + d < f.size) :
    (List.range i).reverse.foldl f.toArena.reflectAt
        (zeros i ++ axisImage (f.reflectors.drop i) d)
      = axisImage f.reflectors (i + d) := by
  -- By induction on the reflectors above the part that has been taken back. The reflection at row
  -- `i` widens this part by a row that was zero.
  induction i generalizing d with
  | zero => simp [zeros]
  | succ i ih =>
    have used : i < f.reflectors.length := by
      change i < f.size
      omega
    have next : f.reflectors.drop i = f.reflectors[i] :: f.reflectors.drop (i + 1) :=
      List.drop_eq_getElem_cons used
    have step : f.toArena.reflectAt (zeros (i + 1) ++ axisImage (f.reflectors.drop (i + 1)) d) i
        = zeros i ++ axisImage (f.reflectors.drop i) (d + 1) := by
      rw [f.reflectAt_toArena _ used, List.getD_eq_getElem _ _ used, next, axisImage]
      have zero_row : zeros (i + 1) ++ axisImage (f.reflectors.drop (i + 1)) d
          = zeros i ++ 0 :: axisImage (f.reflectors.drop (i + 1)) d := by
        simp [zeros, List.replicate_succ']
      rw [zero_row, List.take_left' (length_zeros i), List.drop_left' (length_zeros i)]
    rw [List.range_succ, List.reverse_append, List.reverse_singleton, List.singleton_append,
      List.foldl_cons, step, ih (by omega)]
    congr 1
    omega

/-- The axis that is taken back through the reflections, as the part that reflector `j` acts on. -/
lemma set_zeros {n j : ℕ} {h : Vec α} (length : h.length = n - j) (inside : j < n) :
    (zeros n).set j 1 = zeros j ++ firstAxis h := by
  obtain ⟨a, t, rfl⟩ : ∃ a t, h = a :: t := by
    cases h with
    | nil => simp at length; omega
    | cons a t => exact ⟨a, t, rfl⟩
  have sum : n = j + (t.length + 1) := by
    simp only [List.length_cons] at length
    omega
  rw [sum, zeros, List.replicate_add, List.replicate_succ]
  simp [firstAxis, zeros]

namespace Shaped

variable {f : Factorization α} (shaped : f.Shaped)
include shaped

lemma axisImage_toArena {j : ℕ} (inside : j < f.size) : f.toArena.axisImage j = f.column j := by
  have used : j < f.reflectors.length := inside
  have room : j < f.rows := inside.trans_le (shaped.size_le.trans shaped.capacity_le)
  have length := length_getElem_of_shrinking shaped.shrinking used
  have first : f.toArena.reflectAt ((zeros f.toArena.rows).set j 1) j
      = zeros j ++ Reflection.axisImage (f.reflectors.drop j) 0 := by
    change f.toArena.reflectAt ((zeros f.rows).set j 1) j = _
    rw [set_zeros length room, f.reflectAt_toArena _ inside, List.take_left' (length_zeros j),
      List.drop_left' (length_zeros j), List.getD_eq_getElem _ _ used,
      List.drop_eq_getElem_cons used, Reflection.axisImage]
  rw [Arena.axisImage, List.range_succ, List.reverse_append, List.reverse_singleton,
    List.singleton_append, List.foldl_cons, first, f.foldl_reverse_reflectAt inside]
  rfl

theorem column_toArena (j : ℤ) : f.toArena.column j = f.column? j := by
  by_cases available : 0 ≤ j ∧ j < f.size
  · have inside : j.toNat < f.size := by omega
    rw [Arena.column, column?, size_toArena, if_pos available, if_pos available,
      shaped.axisImage_toArena inside]
  · rw [Arena.column, column?, size_toArena, if_neg available, if_neg available]

theorem orthogonal_toArena : f.toArena.orthogonal = f.orthogonal := by
  rw [Arena.orthogonal, orthogonal]
  congr 1
  apply List.map_congr_left
  intro j member
  exact shaped.axisImage_toArena (List.mem_range.mp member)

theorem triangular_toArena : f.toArena.triangular = f.triangular := by
  have row (i : ℕ) : ((List.range f.size).map fun j =>
        if j < i then 0 else (f.toArena.columns.getD j []).getD i 0)
      = f.columns.zipIdx.map fun (c, j) => if j < i then 0 else c.getD i 0 := by
    apply List.ext_getElem
    · simp [shaped.count]
    · intro j inside _
      have used : j < f.columns.length := by
        rw [shaped.count]
        simpa using inside
      have read : f.toArena.columns[j]? = some f.columns[j] := by
        rw [toArena, getElem?_fillUp _ used, List.getElem?_eq_getElem used]
      simp [read]
  rw [Arena.triangular, triangular]
  apply List.map_congr_left
  intro i _
  exact row i

/-! ### Writing -/

/-- The first free column of the reflectors takes up a new one, below the zeros that are there. -/
lemma modify_reflectors (room : f.size < f.capacity) (h : Vec α) :
    f.toArena.reflectors.modify f.size (Arena.writeFrom f.size h)
      = fillUp f.capacity (zeros f.rows) (f.reflectorColumns ++ [zeros f.size ++ h]) := by
  have above : (zeros f.rows : Vec α).take f.size = zeros f.size := by
    have fits := shaped.size_le.trans shaped.capacity_le
    simp [zeros, fits]
  have place := f.length_reflectorColumns
  have free : f.reflectorColumns.length < f.capacity := by rwa [place]
  have written := modify_fillUp (zeros f.rows) free (Arena.writeFrom f.size h)
  rw [place, Arena.writeFrom, above] at written
  exact written

/-- The first free column of the other matrix takes up the new column. -/
lemma set_columns (room : f.size < f.capacity) (w : Vec α) :
    f.toArena.columns.set f.size w
      = fillUp f.capacity (zeros f.rows) (f.columns ++ [w]) := by
  have free : f.columns.length < f.capacity := by rwa [shaped.count]
  have written := set_fillUp (zeros f.rows) free w
  rwa [shaped.count] at written

/-- The columns in use, the new one with them, are reflected, and those behind stay. -/
lemma map_take_columns (w : Vec α) (g : Vec α → Vec α) :
    ((fillUp f.capacity (zeros f.rows) (f.columns ++ [w])).take (f.size + 1)).map g
        ++ (fillUp f.capacity (zeros f.rows) (f.columns ++ [w])).drop (f.size + 1)
      = fillUp f.capacity (zeros f.rows) ((f.columns ++ [w]).map g) := by
  have length : f.size + 1 = (f.columns ++ [w]).length := by simp [shaped.count]
  rw [length, map_take_fillUp]

theorem fold_run (room : f.size < f.capacity) (v : Vec α) :
    (Arena.fold v).run f.toArena = (.ok (f.size + 1), (f.push v).toArena) := by
  have reflected : (List.range f.size).foldl f.toArena.reflectAt v = applyAll f.reflectors v := by
    rw [f.foldl_reflectAt v le_rfl, size, List.take_length]
  have reflectors := shaped.modify_reflectors room
    (reflector ((applyAll f.reflectors v).drop f.size))
  have columns := shaped.map_take_columns (applyAll f.reflectors v)
    (reflectFrom f.size (reflector ((applyAll f.reflectors v).drop f.size)))
  simp only [Arena.fold, run_get_bind, run_modify_bind, run_pure, size_toArena, reflected,
    reflectors, shaped.set_columns room, columns]
  have after : (f.push v).toArena = ⟨f.rows, f.capacity,
      fillUp f.capacity (zeros f.rows) (f.push v).reflectorColumns,
      fillUp f.capacity (zeros f.rows) (f.push v).columns, (f.push v).size⟩ := rfl
  rw [after, reflectorColumns_push, size_push]
  rfl

/-- What is folded in in place is what is folded in with the lists, and a column that is refused
leaves the arena as it is. -/
theorem extend_run (column : Tensor α) :
    (Arena.extend column).run f.toArena = match f.extend column with
      | .ok g => (.ok g.size, g.toArena)
      | .error e => (.error e, f.toArena) := by
  rw [Arena.extend, run_get_bind, extend]
  rw [rows_toArena, capacity_toArena, size_toArena]
  split_ifs with full shape
  · rfl
  · simp only [size_push]
    exact shaped.fold_run (by omega) column.entries
  · rfl

lemma length_of_mem_reflectorColumns {c : Vec α} (member : c ∈ f.reflectorColumns) :
    c.length = f.rows := by
  obtain ⟨j, inside, rfl⟩ := List.getElem_of_mem member
  have used : j < f.size := by rwa [length_reflectorColumns] at inside
  have length := length_getElem_of_shrinking shaped.shrinking used
  have fits : f.size ≤ f.rows := length_le_of_shrinking shaped.shrinking
  simp [reflectorColumns]
  omega

/-- The columns of either matrix. -/
lemma fits :
    f.reflectorColumns.length ≤ f.capacity ∧ f.columns.length ≤ f.capacity := by
  rw [length_reflectorColumns, shaped.count]
  exact ⟨shaped.size_le, shaped.size_le⟩

theorem reset_run : Arena.reset.run f.toArena = (.ok (), f.reset.toArena) := by
  have reflectors := map_zero_fillUp shaped.fits.1 fun _ => shaped.length_of_mem_reflectorColumns
  have columns := map_zero_fillUp shaped.fits.2 shaped.lengths
  have written : Arena.reset.run f.toArena = (.ok (), ⟨f.rows, f.capacity,
      (fillUp f.capacity (zeros f.rows) f.reflectorColumns).map fun c => c.map fun _ => 0,
      (fillUp f.capacity (zeros f.rows) f.columns).map fun c => c.map fun _ => 0, 0⟩) := rfl
  rw [written, reflectors, columns]
  rfl

end Shaped

lemma toArena_empty (n m : ℕ) : (empty n m : Factorization α).toArena = Arena.blank n m := rfl

end Factorization

end NewtonKrylov
