import NewtonKrylov.Proofs.Space

/-!
# Operators on points

An operator of the program takes arrays to arrays, and may fail. `ActsAs n op F` says that it goes
through on every vector of length `n` and is a function `F` of points there. What it does on other
arrays is left open, since no method asks for it.

The product with an `n × n` matrix acts as the linear map of the matrix.
-/

namespace NewtonKrylov

open Vec

variable {n : ℕ}

/-- The operator acts on vectors of length `n` as a function of points. -/
def ActsAs (op : Operator ℝ) (F : Space n → Space n) : Prop :=
  ∀ x : Space n, op (Tensor.ofVec (ofSpace x)) = .ok (Tensor.ofVec (ofSpace (F x)))

namespace ActsAs

variable {f g : Operator ℝ} {F G : Space n → Space n}

lemma apply (acts : ActsAs f F) {z : Vec ℝ} (length : z.length = n) :
    f (Tensor.ofVec z) = .ok (Tensor.ofVec (ofSpace (F (toSpace n z)))) := by
  have image := acts (toSpace n z)
  rwa [ofSpace_toSpace length] at image

/-- An operator after another acts as the composition. -/
lemma comp (hf : ActsAs f F) (hg : ActsAs g G) : ActsAs (fun z => do f (← g z)) (F ∘ G) := by
  intro x
  simp only [hg x, bind, Except.bind]
  exact hf (G x)

lemma ok : ActsAs (n := n) Except.ok id := fun _ => rfl

/-- A function of numbers, applied to each entry. -/
lemma entrywise (f : ℝ → ℝ) :
    ActsAs (n := n) (fun t => .ok (t.map f)) fun x => WithLp.toLp 2 fun i => f (x i) := by
  intro x
  simp only [Tensor.map_ofVec, ofSpace, List.map_ofFn]
  rfl

end ActsAs

namespace Tensor

lemma combine_add_ofSpace (x y : Space n) :
    combine (· + ·) (ofVec (ofSpace x)) (ofVec (ofSpace y)) = .ok (ofVec (ofSpace (x + y))) := by
  rw [combine_ofVec _ (by simp), ofSpace_add]
  rfl

lemma combine_sub_ofSpace (x y : Space n) :
    combine (· - ·) (ofVec (ofSpace x)) (ofVec (ofSpace y)) = .ok (ofVec (ofSpace (x - y))) := by
  rw [combine_ofVec _ (by simp), ofSpace_sub]
  rfl

lemma update_add_ofSpace (x y : Space n) :
    update (· + ·) (ofVec (ofSpace x)) (ofVec (ofSpace y)) = .ok (ofVec (ofSpace (x + y))) := by
  rw [update_ofVec _ (by simp), ofSpace_add]
  rfl

lemma smul_ofSpace (a : ℝ) (x : Space n) :
    (ofVec (ofSpace x)).smul a = ofVec (ofSpace (a • x)) := by
  rw [smul_ofVec, ofSpace_smul]

lemma map_div_ofSpace (a : ℝ) (x : Space n) :
    (ofVec (ofSpace x)).map (· / a) = ofVec (ofSpace (a⁻¹ • x)) := by
  rw [map_ofVec, ← divBy_ofSpace]
  rfl

/-- The matrix that an array of two dimensions holds. -/
noncomputable def toMatrix (n : ℕ) (A : Tensor ℝ) : Matrix (Fin n) (Fin n) ℝ :=
  Rows.toMatrix n n (A.slices.map Tensor.entries)

/-- Is this an `n × n` matrix? -/
structure IsSquare (n : ℕ) (A : Tensor ℝ) : Prop where
  shape : A.shape = [n, n]
  full : A.entries.length = n * n

lemma IsSquare.hasShape {A : Tensor ℝ} (square : IsSquare n A) :
    Rows.HasShape n n (A.slices.map Tensor.entries) := by
  rw [slices, square.shape]
  constructor
  · simp
  · intro row member
    obtain ⟨_, slice, rfl⟩ := List.mem_map.mp member
    obtain ⟨i, inside, rfl⟩ := List.mem_map.mp slice
    have room : (i + 1) * n ≤ n * n := Nat.mul_le_mul_right n (List.mem_range.mp inside)
    rw [Nat.add_mul, Nat.one_mul] at room
    simp only [List.length_take, List.length_drop, square.full, count, List.foldr_cons,
      List.foldr_nil, Nat.mul_one]
    omega

/-- The product with a square matrix is a linear map. -/
theorem IsSquare.actsAs_product {A : Tensor ℝ} (square : IsSquare n A) :
    ActsAs A.product (Matrix.toEuclideanLin (A.toMatrix n)) := by
  intro x
  have shape : A.shape = [n, (ofSpace x).length] := by rw [square.shape, length_ofSpace]
  have rows := square.hasShape
  rw [product_matrix A shape]
  congr 2
  apply eq_of_toSpace_eq (n := n) (by rw [Rows.length_apply, rows.1]) (length_ofSpace _)
  ext i
  have inside : (i : ℕ) < (A.slices.map Tensor.entries).length := by
    rw [rows.1]
    exact i.isLt
  have row : ((A.slices.map Tensor.entries)[(i : ℕ)]).length = (ofSpace x).length := by
    rw [rows.2 _ (List.getElem_mem inside), length_ofSpace]
  rw [toSpace_ofSpace, Matrix.ofLp_toLpLin, Matrix.toLin'_apply, toSpace_apply, Rows.apply,
    List.getD_eq_getElem _ _ (by simpa using inside), List.getElem_map, dot_eq_sum row,
    length_ofSpace, Finset.sum_range, Matrix.mulVec, dotProduct]
  apply Finset.sum_congr rfl
  intro j _
  have entry : (ofSpace x).getD j 0 = x j := by rw [← toSpace_apply, toSpace_ofSpace]
  rw [entry, toMatrix, Rows.toMatrix_apply, List.getD_eq_getElem _ [] inside]

end Tensor

end NewtonKrylov
