import Mathlib.Data.List.GetD
import NewtonKrylov.Proofs.Exact
import NewtonKrylov.Rows
import NewtonKrylov.Tensor.Algebra

/-!
# Vectors as points of a Euclidean space

In exact arithmetic a vector of length `n` is a point of the Euclidean space of dimension `n`.
`Vec.toSpace` reads a list as a point and `Vec.ofSpace` writes the entries of a point. The
operations on lists of one length are then the operations of the space, so that spans, orthogonality
and dimension can be spoken of.

`Rows.toMatrix` reads a list of rows as a matrix in the same way. Places that a list does not have
read as zero.
-/

namespace NewtonKrylov

/-- The Euclidean space of dimension `n`. -/
abbrev Space (n : ℕ) := EuclideanSpace ℝ (Fin n)

open scoped InnerProductSpace

namespace Vec

variable {n : ℕ}

/-- The point with the entries of a vector. -/
noncomputable def toSpace (n : ℕ) (v : Vec ℝ) : Space n := WithLp.toLp 2 fun i => v.getD i 0

/-- The entries of a point. -/
noncomputable def ofSpace (x : Space n) : Vec ℝ := List.ofFn fun i => x i

/-- The vector of length `n` with one at place `j` and zeros elsewhere. -/
noncomputable def axis (n j : ℕ) : Vec ℝ := (zeros n).set j 1

/-- The sum of the first `k` points of a family of vectors, each with a coefficient. -/
noncomputable def combination (n : ℕ) (c : ℕ → ℝ) (z : ℕ → Space n) (k : ℕ) : Space n :=
  ∑ j ∈ Finset.range k, c j • z j

/-- The space of dimension zero has one point only. -/
lemma dimension_pos_of_ne_zero {x : Space n} (nonzero : x ≠ 0) : 0 < n := by
  rcases Nat.eq_zero_or_pos n with zero | positive
  · subst zero
    exact absurd (Subsingleton.elim x 0) nonzero
  · exact positive

/-! ### Reading and writing -/

@[simp] lemma toSpace_apply (v : Vec ℝ) (i : Fin n) : toSpace n v i = v.getD i 0 := rfl

@[simp] lemma length_ofSpace (x : Space n) : (ofSpace x).length = n := by simp [ofSpace]

@[simp] lemma toSpace_ofSpace (x : Space n) : toSpace n (ofSpace x) = x := by
  ext i
  simp [ofSpace, List.getD]

lemma ofSpace_toSpace {v : Vec ℝ} (length : v.length = n) : ofSpace (toSpace n v) = v := by
  subst length
  apply List.ext_getElem
  · simp
  · intro i _ below
    simp [ofSpace, List.getD]

/-- Vectors of one length are equal as soon as their points are. -/
lemma eq_of_toSpace_eq {u v : Vec ℝ} (hu : u.length = n) (hv : v.length = n)
    (same : toSpace n u = toSpace n v) : u = v := by
  rw [← ofSpace_toSpace hu, same, ofSpace_toSpace hv]

/-! ### Operations -/

@[simp] lemma toSpace_zeros (m : ℕ) : toSpace n (zeros m) = 0 := by
  ext i
  by_cases below : (i : ℕ) < m
  · simp [zeros, List.getD, below]
  · simp [zeros, List.getD, below]

@[simp] lemma length_axis (j : ℕ) : (axis n j).length = n := by simp [axis]

lemma toSpace_axis_apply (j : ℕ) (i : Fin n) :
    toSpace n (axis n j) i = if (i : ℕ) = j then 1 else 0 := by
  by_cases same : (i : ℕ) = j
  · subst same
    simp [axis, List.getD]
  · simp [axis, zeros, List.getD, same, Ne.symm same]

lemma toSpace_axis {j : ℕ} (below : j < n) :
    toSpace n (axis n j) = EuclideanSpace.single ⟨j, below⟩ 1 := by
  ext i
  rw [toSpace_axis_apply, PiLp.single_apply]
  simp [Fin.ext_iff]

/-- The component along an axis is the entry at its place. -/
lemma inner_axis {j : ℕ} (below : j < n) (v : Vec ℝ) :
    ⟪toSpace n (axis n j), toSpace n v⟫_ℝ = v.getD j 0 := by
  rw [toSpace_axis below, EuclideanSpace.inner_single_left]
  simp

lemma toSpace_zipWith {u v : Vec ℝ} (f : ℝ → ℝ → ℝ) (hu : u.length = n) (hv : v.length = n)
    (i : Fin n) :
    toSpace n (List.zipWith f u v) i = f (toSpace n u i) (toSpace n v i) := by
  have iu : (i : ℕ) < u.length := by omega
  have iv : (i : ℕ) < v.length := by omega
  simp [List.getD, List.getElem?_zipWith, List.getElem?_eq_getElem iu,
    List.getElem?_eq_getElem iv]

lemma toSpace_add {u v : Vec ℝ} (hu : u.length = n) (hv : v.length = n) :
    toSpace n (add u v) = toSpace n u + toSpace n v := by
  ext i
  exact toSpace_zipWith (· + ·) hu hv i

lemma toSpace_sub {u v : Vec ℝ} (hu : u.length = n) (hv : v.length = n) :
    toSpace n (sub u v) = toSpace n u - toSpace n v := by
  ext i
  exact toSpace_zipWith (· - ·) hu hv i

@[simp] lemma toSpace_smul (c : ℝ) (v : Vec ℝ) : toSpace n (smul c v) = c • toSpace n v := by
  ext i
  by_cases below : (i : ℕ) < v.length
  · simp [smul, List.getD, below]
  · simp [smul, List.getD, below]

@[simp] lemma toSpace_divBy (v : Vec ℝ) (c : ℝ) : toSpace n (divBy v c) = c⁻¹ • toSpace n v := by
  ext i
  by_cases below : (i : ℕ) < v.length
  · simp [divBy, List.getD, below, div_eq_inv_mul]
  · simp [divBy, List.getD, below]

lemma ofSpace_add (x y : Space n) : ofSpace (x + y) = add (ofSpace x) (ofSpace y) := by
  apply eq_of_toSpace_eq (n := n) (by simp) (by simp)
  rw [toSpace_add (by simp) (by simp)]
  simp

lemma ofSpace_sub (x y : Space n) : ofSpace (x - y) = sub (ofSpace x) (ofSpace y) := by
  apply eq_of_toSpace_eq (n := n) (by simp) (by simp)
  rw [toSpace_sub (by simp) (by simp)]
  simp

lemma ofSpace_smul (c : ℝ) (x : Space n) : ofSpace (c • x) = smul c (ofSpace x) := by
  apply eq_of_toSpace_eq (n := n) (by simp) (by simp)
  simp

lemma divBy_ofSpace (x : Space n) (c : ℝ) : divBy (ofSpace x) c = ofSpace (c⁻¹ • x) := by
  apply eq_of_toSpace_eq (n := n) (by simp) (by simp)
  simp

lemma ofSpace_zero : ofSpace (0 : Space n) = zeros n := by
  apply eq_of_toSpace_eq (n := n) (by simp) (by simp)
  simp

lemma dot_cons (a b : ℝ) (u v : Vec ℝ) : dot (a :: u) (b :: v) = a * b + dot u v := by
  simp [dot]

/-- The inner product is the sum of the products of entries. -/
lemma dot_eq_sum {u v : Vec ℝ} (same : u.length = v.length) :
    dot u v = ∑ j ∈ Finset.range v.length, u.getD j 0 * v.getD j 0 := by
  induction u generalizing v with
  | nil =>
    have none : v = [] := List.length_eq_zero_iff.mp same.symm
    simp [none, dot]
  | cons a u ih =>
    cases v with
    | nil => simp at same
    | cons b v =>
      rw [dot_cons, ih (by simpa using same), List.length_cons, Finset.sum_range_succ']
      simp [add_comm]

/-- The inner product of vectors is that of their points. -/
lemma inner_toSpace {u v : Vec ℝ} (hu : u.length = n) (hv : v.length = n) :
    ⟪toSpace n u, toSpace n v⟫_ℝ = dot u v := by
  have entries : dot u v = ∑ i : Fin n, toSpace n u i * toSpace n v i := by
    rw [dot_eq_sum (hu.trans hv.symm), hv, Finset.sum_range]
    rfl
  rw [entries, PiLp.inner_apply]
  apply Finset.sum_congr rfl
  intro i _
  exact mul_comm _ _

lemma norm_singleton (a : ℝ) : norm [a] = |a| := by
  simp [norm, dot, Real.sqrt_mul_self_eq_abs]

lemma norm_nonneg (v : Vec ℝ) : 0 ≤ norm v := Real.sqrt_nonneg _

lemma norm_toSpace {v : Vec ℝ} (length : v.length = n) : ‖toSpace n v‖ = norm v := by
  rw [norm_eq_sqrt_real_inner, inner_toSpace length length]
  rfl

lemma norm_ofSpace (x : Space n) : norm (ofSpace x) = ‖x‖ := by
  rw [← norm_toSpace (length_ofSpace x), toSpace_ofSpace]

lemma combination_succ (c : ℕ → ℝ) (z : ℕ → Space n) (k : ℕ) :
    combination n c z (k + 1) = combination n c z k + c k • z k :=
  Finset.sum_range_succ _ _

/-- A combination depends on the coefficients and the points it is made of only. -/
lemma combination_congr {c d : ℕ → ℝ} {y z : ℕ → Space n} {k : ℕ}
    (coefficients : ∀ j < k, c j = d j) (points : ∀ j < k, y j = z j) :
    combination n c y k = combination n d z k := by
  apply Finset.sum_congr rfl
  intro j member
  rw [coefficients j (Finset.mem_range.mp member), points j (Finset.mem_range.mp member)]

lemma map_combination (A : Space n →ₗ[ℝ] Space n) (c : ℕ → ℝ) (z : ℕ → Space n) (k : ℕ) :
    A (combination n c z k) = combination n c (fun j => A (z j)) k := by
  simp [combination]

/-- A linear combination of vectors is the combination of their points. -/
lemma toSpace_linearCombination (cs : Vec ℝ) {zs : List (Vec ℝ)} (count : cs.length = zs.length)
    (lengths : ∀ z ∈ zs, z.length = n) :
    toSpace n (linearCombination n cs zs)
      = combination n (cs.getD · 0) (fun j => toSpace n (zs.getD j [])) zs.length := by
  induction cs generalizing zs with
  | nil =>
    have none : zs = [] := List.length_eq_zero_iff.mp count.symm
    simp [none, linearCombination, combination]
  | cons c cs ih =>
    cases zs with
    | nil => simp at count
    | cons z zs =>
      have rest : ∀ w ∈ zs, w.length = n := fun w member =>
        lengths w (List.mem_cons_of_mem z member)
      have tail := ih (by simpa using count) rest
      rw [linearCombination, toSpace_add (by simp [lengths]) (length_linearCombination cs rest),
        tail, toSpace_smul]
      simp only [combination, List.length_cons]
      rw [Finset.sum_range_succ']
      simp [add_comm]

end Vec

namespace Rows

/-- The matrix with the entries of a list of rows. -/
noncomputable def toMatrix (m n : ℕ) (A : Rows ℝ) : Matrix (Fin m) (Fin n) ℝ :=
  .of fun i j => (A.getD i []).getD j 0

/-- The entry in row `i` and column `j`. -/
def entry (A : Rows ℝ) (i j : ℕ) : ℝ := (A.getD i []).getD j 0

/-- Is this a list of `m` rows with `n` entries each? -/
def HasShape (m n : ℕ) (A : Rows ℝ) : Prop := A.length = m ∧ ∀ row ∈ A, row.length = n

lemma toMatrix_apply (m n : ℕ) (A : Rows ℝ) (i : Fin m) (j : Fin n) :
    toMatrix m n A i j = (A.getD i []).getD j 0 := rfl

lemma toMatrix_ofColumns (m n : ℕ) (columns : List (Vec ℝ)) (i : Fin m) (j : Fin n) :
    toMatrix m n (ofColumns m columns) i j = (columns.getD j []).getD i 0 := by
  rw [toMatrix_apply, ofColumns]
  rcases lt_or_ge (j : ℕ) columns.length with inside | outside
  · simp [List.getD, inside]
  · simp [List.getD, outside]

lemma hasShape_ofColumns (m : ℕ) (columns : List (Vec ℝ)) :
    HasShape m columns.length (ofColumns m columns) := by
  constructor
  · simp
  · intro row member
    obtain ⟨i, _, rfl⟩ := List.mem_map.mp member
    simp

end Rows

end NewtonKrylov
