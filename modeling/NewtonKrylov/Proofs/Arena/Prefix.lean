import NewtonKrylov.Proofs.Arena.Calls

/-!
# Factors of the first columns

Folding in a column reflects the lower part of all columns once more, in whatever arithmetic, and so
changes entries of earlier columns. But the reflection begins below the rows that the triangular
factor of these columns shows, and the reflectors that make up the orthogonal factor stay. So column
`j` of the orthogonal factor depends on the first `j + 1` columns alone, and a leading block of the
triangular factor on as many columns as it has.
-/

namespace NewtonKrylov

open Vec Reflection

variable {α : Type} [Scalar α] {n m : ℕ}

namespace Rows

/-! ### Leading blocks -/

/-- The leading block of `k` rows and columns. -/
def leading (k : ℕ) (A : Rows α) : Rows α := (A.take k).map (·.take k)

omit [Scalar α] in
lemma leading_leading {k l : ℕ} (atMost : k ≤ l) (A : Rows α) :
    (A.leading l).leading k = A.leading k := by
  simp [leading, ← List.map_take, List.take_take, atMost]

omit [Scalar α] in
/-- A matrix is its own largest block. -/
lemma leading_of_le {k : ℕ} {A : Rows α} (rows : A.length ≤ k)
    (columns : ∀ row ∈ A, row.length ≤ k) : A.leading k = A := by
  rw [leading, List.take_of_length_le rows]
  conv_rhs => rw [← List.map_id A]
  apply List.map_congr_left
  intro row member
  exact List.take_of_length_le (columns row member)

end Rows

namespace Factorization

/-! ### One column more -/

/-- A reflection from row `k` on leaves the rows above alone. -/
lemma getD_reflectFrom {i k : ℕ} (above : i < k) (h : Vec α) {c : Vec α} (inside : k ≤ c.length) :
    (reflectFrom k h c).getD i 0 = c.getD i 0 := by
  have taken : i < (c.take k).length := by
    rw [List.length_take]
    omega
  rw [reflectFrom, List.getD_append _ _ _ _ taken, List.getD_eq_getElem _ _ taken,
    List.getElem_take, List.getD_eq_getElem]

namespace Shaped

variable {f : Factorization α} (shaped : f.Shaped)
include shaped

lemma leading_triangular : f.triangular.leading f.size = f.triangular := by
  apply Rows.leading_of_le
  · simp [triangular]
  · intro row member
    obtain ⟨i, _, rfl⟩ := List.mem_map.mp member
    simp [shaped.count]

lemma leading_triangular_push (v : Vec α) :
    (f.push v).triangular.leading f.size = f.triangular := by
  have fits : f.size ≤ f.rows := shaped.size_le.trans shaped.capacity_le
  have row (i : ℕ) (above : i < f.size) :
      ((f.push v).columns.zipIdx.map fun e => if e.2 < i then 0 else e.1.getD i 0).take f.size
        = f.columns.zipIdx.map fun e => if e.2 < i then 0 else e.1.getD i 0 := by
    apply List.ext_getElem
    · simp [Factorization.push, shaped.count]
    · intro j _ inside
      have used : j < f.columns.length := by simpa using inside
      have length := shaped.lengths f.columns[j] (List.getElem_mem used)
      have same := getD_reflectFrom above (reflector ((applyAll f.reflectors v).drop f.size))
        (length ▸ fits)
      rw [List.getD_eq_getElem?_getD, List.getD_eq_getElem?_getD] at same
      simp [Factorization.push, used, same]
  rw [triangular, triangular, Rows.leading, size_push, ← List.map_take, List.take_range,
    Nat.min_eq_left (Nat.le_succ _), List.map_map]
  apply List.map_congr_left
  intro i member
  exact row i (List.mem_range.mp member)

end Shaped

lemma column_collect_append (vs ws : List (Vec α)) {j : ℕ} (inside : j < vs.length) :
    (collect n m (vs ++ ws)).column j = (collect n m vs).column j := by
  induction ws using List.reverseRecOn with
  | nil => rw [List.append_nil]
  | append_singleton ws w ih =>
    have below : j < (collect n m (vs ++ ws)).size := by
      rw [size_collect, List.length_append]
      omega
    rw [← List.append_assoc, collect_concat, column_push _ w below, ih]

lemma leading_triangular_collect_append (fits : m ≤ n) (vs ws : List (Vec α))
    (lengths : ∀ v ∈ vs ++ ws, v.length = n) (room : (vs ++ ws).length ≤ m) :
    (collect n m (vs ++ ws)).triangular.leading vs.length = (collect n m vs).triangular := by
  induction ws using List.reverseRecOn with
  | nil =>
    rw [List.append_nil] at lengths room ⊢
    have whole := (shaped_collect fits lengths room).leading_triangular
    rwa [size_collect] at whole
  | append_singleton ws w ih =>
    rw [← List.append_assoc] at lengths room ⊢
    rw [List.length_append, List.length_singleton] at room
    have lengths_before : ∀ v ∈ vs ++ ws, v.length = n := fun v member =>
      lengths v (List.mem_append_left [w] member)
    have shaped := shaped_collect fits lengths_before (by omega)
    have step := shaped.leading_triangular_push w
    rw [size_collect] at step
    rw [collect_concat, ← Rows.leading_leading (l := (vs ++ ws).length) (by simp), step,
      ih lengths_before (by omega)]

/-- The room for more columns plays no part in the factorization of those that are there. -/
lemma collect_capacity (m m' : ℕ) (vs : List (Vec α)) :
    collect n m' vs = { collect n m vs with capacity := m' } := by
  induction vs using List.reverseRecOn with
  | nil => rfl
  | append_singleton vs v ih =>
    rw [collect_concat, collect_concat, ih]
    rfl

end Factorization

namespace Arena

open Factorization

namespace Session.Tracks

variable {s : Session α} (tracks : Tracks n m s)
include tracks

lemma size_eq : s.arena.size = s.fed.length := by
  rw [tracks.arena, size_toArena, size_collect]

/-- Column `j` of the orthogonal factor is that of the first `j + 1` columns. -/
lemma column_eq (fits : m ≤ n) {j : ℕ} (inside : j < s.arena.size) :
    s.arena.column j = .ok ((collect n 0 (s.fed.take (j + 1))).column j) := by
  rw [tracks.size_eq] at inside
  have first := column_collect_append (n := n) (m := m) (s.fed.take (j + 1)) (s.fed.drop (j + 1))
    (j := j) (by rw [List.length_take]; omega)
  have room := collect_capacity (n := n) m 0 (s.fed.take (j + 1))
  rw [List.take_append_drop] at first
  rw [room, tracks.arena, (tracks.shaped fits).column_toArena, column?, size_collect,
    if_pos (by omega), Int.toNat_natCast, first]
  rfl

/-- A leading block of the triangular factor is the triangular factor of the first columns. -/
lemma leading_triangular_eq (fits : m ≤ n) {k : ℕ} (atMost : k ≤ s.arena.size) :
    s.arena.triangular.leading k = (collect n 0 (s.fed.take k)).triangular := by
  rw [tracks.size_eq] at atMost
  have count : (s.fed.take k).length = k := by
    rw [List.length_take]
    omega
  have first := leading_triangular_collect_append fits (s.fed.take k) (s.fed.drop k)
    (by rw [List.take_append_drop]; exact tracks.lengths)
    (by rw [List.take_append_drop]; exact tracks.room)
  have room := collect_capacity (n := n) m 0 (s.fed.take k)
  rw [List.take_append_drop, count] at first
  rw [room, tracks.arena, (tracks.shaped fits).triangular_toArena, first]
  rfl

/-- The columns tell how many rows the arena has. -/
lemma rows_eq {n' m' j : ℕ} {s' : Session α} (tracks' : Tracks n' m' s')
    (inside : j < s.arena.size) (inside' : j < s'.arena.size)
    (same : s.fed.take (j + 1) = s'.fed.take (j + 1)) : n = n' := by
  rw [tracks.size_eq] at inside
  rw [tracks'.size_eq] at inside'
  have column : s.fed[j] = s'.fed[j] := by
    have here := congrArg (fun vs : List (Vec α) => vs[j]?) same
    simpa [inside, inside'] using here
  rw [← tracks.lengths s.fed[j] (List.getElem_mem inside), column,
    tracks'.lengths s'.fed[j] (List.getElem_mem inside')]

end Session.Tracks

/-- A column that has been folded in is noted. -/
lemma Session.after_extend {s : Session α} {c : Tensor α} (full : c.Full) {k : ℕ} {b : Arena α}
    (run : (Arena.extend c).run s.arena = (.ok k, b)) :
    s.after (.extend c full) = ⟨b, s.fed ++ [c.entries]⟩ := by
  rw [Session.after, Call.perform, run_bind_of_ok run]
  rfl

/-- An arena that could be created has no more columns than rows. -/
lemma create_eq_ok {rows capacity : ℤ} {fresh : Arena α}
    (created : create rows capacity = .ok fresh) : ∃ n m : ℕ, m ≤ n ∧ fresh = blank n m := by
  rw [create] at created
  split_ifs at created with wide negative
  exact ⟨rows.toNat, capacity.toNat, by omega, (Except.ok.inj created).symm⟩

/-- Folding in a column keeps the orthogonal factor of the columns so far, and the triangular factor
as the leading block of the new one. Arenas that have taken up the same first columns since their
last resets have the same first columns of the orthogonal factor, and the same leading block of the
triangular factor. -/
theorem factors_of_first_columns {rows rows' capacity capacity' : ℤ} {fresh fresh' : Arena α}
    (created : create rows capacity = .ok fresh) (created' : create rows' capacity' = .ok fresh')
    (calls calls' : List (Call α)) :
    let s := Session.run fresh calls
    let s' := Session.run fresh' calls'
    (∀ (c : Tensor α) (_ : c.Full) (k : ℕ) (b : Arena α),
      (Arena.extend c).run s.arena = (.ok k, b) →
        (∀ j : ℤ, 0 ≤ j → j < s.arena.size → ∃ q, s.arena.column j = .ok q ∧ b.column j = .ok q) ∧
        b.triangular.leading s.arena.size = s.arena.triangular) ∧
    (∀ j : ℕ, j < s.arena.size → j < s'.arena.size →
      s.fed.take (j + 1) = s'.fed.take (j + 1) → s.arena.column j = s'.arena.column j) ∧
    (∀ k : ℕ, k ≤ s.arena.size → k ≤ s'.arena.size → s.fed.take k = s'.fed.take k →
      s.arena.triangular.leading k = s'.arena.triangular.leading k) := by
  intro s s'
  obtain ⟨n, m, fits, rfl⟩ := create_eq_ok created
  obtain ⟨n', m', fits', rfl⟩ := create_eq_ok created'
  have tracks : Session.Tracks n m s := Session.tracks_run fits calls
  have tracks' : Session.Tracks n' m' s' := Session.tracks_run fits' calls'
  refine ⟨?_, ?_, ?_⟩
  · intro c full k b run
    have next := tracks.after fits (.extend c full)
    rw [Session.after_extend full run] at next
    have count := next.size_eq
    rw [List.length_append, List.length_singleton, ← tracks.size_eq] at count
    have kept (i : ℕ) (atMost : i ≤ s.arena.size) :
        (s.fed ++ [c.entries]).take i = s.fed.take i := by
      rw [tracks.size_eq] at atMost
      exact List.take_append_of_le_length atMost
    constructor
    · -- Both columns are those of a new factorization of the same first columns.
      intro j nonneg inside
      lift j to ℕ using nonneg
      rw [Nat.cast_lt] at inside
      refine ⟨_, tracks.column_eq fits inside, ?_⟩
      rw [next.column_eq fits (by dsimp only at count ⊢; omega), kept _ inside]
    · have whole := (tracks.shaped fits).leading_triangular
      rw [size_collect, ← tracks.size_eq, ← (tracks.shaped fits).triangular_toArena,
        ← tracks.arena, tracks.leading_triangular_eq fits le_rfl] at whole
      rw [next.leading_triangular_eq fits (by dsimp only at count ⊢; omega), kept _ le_rfl, whole]
  · intro j inside inside' same
    obtain rfl := tracks.rows_eq tracks' inside inside' same
    rw [tracks.column_eq fits inside, tracks'.column_eq fits' inside', same]
  · intro k atMost atMost' same
    -- The empty block is the same for any number of rows. A first column tells that number.
    cases k with
    | zero => simp [Rows.leading]
    | succ j =>
      obtain rfl := tracks.rows_eq tracks' atMost atMost' same
      rw [tracks.leading_triangular_eq fits atMost, tracks'.leading_triangular_eq fits' atMost',
        same]

/-- A column after one with an entry that is no number, and the same first column in a smaller
arena, after a reset. -/
theorem factors_of_first_columns_nan :
    ∃ a b a' : Arena Float,
      a = (Session.run (blank 2 2) [.extend (Tensor.ofVec [1, 0 / 0]) rfl]).arena ∧
      a' = (Session.run (blank 2 1) [.extend (Tensor.ofVec [3, 4]) rfl, .reset,
        .extend (Tensor.ofVec [1, 0 / 0]) rfl]).arena ∧
      (Arena.extend (Tensor.ofVec [3, 4])).run a = (.ok 2, b) ∧
      (∃ q, a.column 0 = .ok q ∧ b.column 0 = .ok q) ∧
      b.triangular.leading 1 = a.triangular ∧
      a.column 0 = a'.column 0 ∧ a.triangular.leading 1 = a'.triangular.leading 1 := by
  have created : create 2 2 = .ok (blank (α := Float) 2 2) := rfl
  have created' : create 2 1 = .ok (blank (α := Float) 2 1) := rfl
  obtain ⟨extended, columns, blocks⟩ := factors_of_first_columns created created'
    [.extend (Tensor.ofVec [1, 0 / 0]) rfl]
    [.extend (Tensor.ofVec [3, 4]) rfl, .reset, .extend (Tensor.ofVec [1, 0 / 0]) rfl]
  obtain ⟨b, run⟩ : ∃ b, (Arena.extend (Tensor.ofVec [3, 4])).run
      (Session.run (blank (α := Float) 2 2) [.extend (Tensor.ofVec [1, 0 / 0]) rfl]).arena
        = (.ok 2, b) := ⟨_, Prod.ext rfl rfl⟩
  obtain ⟨kept, block⟩ := extended (Tensor.ofVec [3, 4]) rfl 2 b run
  have fed : (Session.run (blank (α := Float) 2 2)
      [.extend (Tensor.ofVec [1, 0 / 0]) rfl]).fed = [[1, 0 / 0]] := rfl
  have fed' : (Session.run (blank (α := Float) 2 1) [.extend (Tensor.ofVec [3, 4]) rfl, .reset,
      .extend (Tensor.ofVec [1, 0 / 0]) rfl]).fed = [[1, 0 / 0]] := rfl
  have same := fed.trans fed'.symm
  exact ⟨_, b, _, rfl, rfl, run, kept 0 le_rfl (by decide), block,
    columns 0 (by decide) (by decide) (by rw [same]),
    blocks 1 (by decide) (by decide) (by rw [same])⟩

end Arena

end NewtonKrylov
