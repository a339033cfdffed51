import NewtonKrylov.Tensor.Algebra

/-!
# Householder reflections

The reflection along a unit vector `h` maps `v` to `v - 2 h ⟨h, v⟩`. `reflector v` is the vector
whose reflection takes `v` to a multiple of the first axis. Its sign is the one for which the first
entry is formed without cancellation, and a vector of norm zero gives a reflector of norm zero,
along which nothing is reflected. `reflector?` and `image?` are the same for arrays whose shapes are
only known when the program runs.

A list of reflectors stands for a product of reflections on shrinking parts of a vector: `applyAll`
is the product, and `axisImage` takes an axis back through it.
-/

namespace NewtonKrylov

namespace Reflection

variable {α : Type} [Scalar α]

/-- The difference between the first axis, as long as `v` and turned away from it, and `v`. -/
def offset (v : Vec α) : Vec α :=
  match v with
  | [] => []
  | a :: t => (-a - Scalar.sign a * Vec.norm v) :: t.map (- ·)

/-- The unit vector whose reflection takes `v` to the first axis. -/
def reflector (v : Vec α) : Vec α :=
  let h := offset v
  let length := Vec.norm h
  if length == 0 then h else Vec.divBy h length

/-- The reflector of an array. It needs a first part, and this part a single entry, whose sign is
taken. -/
def reflector? (v : Tensor α) : Except Error (Tensor α) :=
  match v.shape with
  | [] | 0 :: _ => .error .indexOutOfRange
  | _ :: rest =>
    if Tensor.count rest = 1 then .ok ⟨v.shape, reflector v.entries⟩ else .error .shapeMismatch

/-- The reflection of `v` along `h`. -/
def image (h v : Vec α) : Vec α :=
  let d := Vec.dot h v
  List.zipWith (fun a b => a - ((2 : Nat) : α) * b * d) v h

/-- The reflection of an array along another. -/
def image? (h v : Tensor α) : Except Error (Tensor α) := do
  let d ← Tensor.product h v
  Tensor.combine (· - ·) v (← Tensor.combine (· * ·) (h.smul ((2 : Nat) : α)) d)

/-- Apply a list of reflections in order, each to what is left of the vector after one entry more
has been set aside. -/
def applyAll : List (Vec α) → Vec α → Vec α
  | [], v => v
  | h :: hs, v =>
    match image h v with
    | [] => []
    | a :: t => a :: applyAll hs t

/-- The first axis, in the dimension of a given vector. -/
def firstAxis (v : Vec α) : Vec α :=
  match v with
  | [] => []
  | _ :: t => 1 :: Vec.zeros t.length

/-- The image of axis `j` under the reflections of a list, the innermost first: reflection `m` acts
on the entries from `m` on. -/
def axisImage : List (Vec α) → Nat → Vec α
  | [], _ => []
  | h :: _, 0 => image h (firstAxis h)
  | h :: hs, j + 1 => image h (0 :: axisImage hs j)

/-! ### Lengths -/

@[simp] theorem length_offset (v : Vec α) : (offset v).length = v.length := by
  cases v <;> simp [offset]

@[simp] theorem length_reflector (v : Vec α) : (reflector v).length = v.length := by
  simp only [reflector]
  split <;> simp

theorem length_image {h v : Vec α} (same : h.length = v.length) :
    (image h v).length = v.length := by
  simp [image, same]

theorem reflector?_ofVec {v : Vec α} (nonempty : v ≠ []) :
    reflector? (Tensor.ofVec v) = .ok (Tensor.ofVec (reflector v)) := by
  cases v with
  | nil => exact absurd rfl nonempty
  | cons a t => simp [reflector?, Tensor.ofVec, Tensor.count]

@[simp] theorem length_firstAxis (v : Vec α) : (firstAxis v).length = v.length := by
  cases v <;> simp [firstAxis]

/-- The reflectors of a list act on parts of a vector of length `n` that shrink by one entry. -/
def Shrinking : Nat → List (Vec α) → Prop
  | _, [] => True
  | n, h :: hs => h.length = n ∧ 0 < n ∧ Shrinking (n - 1) hs

theorem length_applyAll {n : Nat} {hs : List (Vec α)} {v : Vec α} (shrinking : Shrinking n hs)
    (length : v.length = n) : (applyAll hs v).length = n := by
  induction hs generalizing n v with
  | nil => simpa [applyAll] using length
  | cons h hs ih =>
    obtain ⟨same, positive, rest⟩ := shrinking
    have kept : (image h v).length = n := by rw [length_image (by omega), length]
    unfold applyAll
    split
    · next empty => simp [empty] at kept; omega
    · next a t split =>
      have tail : t.length = n - 1 := by simp [split] at kept; omega
      simp [ih rest tail]
      omega

end Reflection

end NewtonKrylov
