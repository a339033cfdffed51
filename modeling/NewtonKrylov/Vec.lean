import NewtonKrylov.Error
import NewtonKrylov.Scalar

/-!
# Vectors

A vector is the list of its entries. `dot`, `norm`, `maxNorm`, `smul` and `linearCombination` are
total and are meant for vectors of one length.

Where lengths are only known when the program runs, `combine` is the entrywise operation that
spreads a vector of length one over the other operand and refuses all other unequal lengths;
`dot?` never spreads, and `fill` writes a vector into a place of a given length.
-/

namespace NewtonKrylov

/-- A vector, as the list of its entries. -/
abbrev Vec (α : Type) := List α

namespace Vec

variable {α β : Type}

/-! ### Operations on entries -/

/-- Apply an operation entrywise, where a vector of length one goes with every entry of the
other. -/
def combine (f : α → α → β) (u v : Vec α) : Except Error (Vec β) :=
  if u.length = v.length then .ok (List.zipWith f u v)
  else
    match u, v with
    | [a], _ => .ok (v.map (f a))
    | _, [b] => .ok (u.map (f · b))
    | _, _ => .error .shapeMismatch

/-- The entries written into a place of length `n`: a vector of that length, or a single number
written everywhere. -/
def fill (n : Nat) (v : Vec α) : Except Error (Vec α) :=
  if v.length = n then .ok v
  else
    match v with
    | [a] => .ok (List.replicate n a)
    | _ => .error .shapeMismatch

theorem combine_of_length_eq (f : α → α → β) {u v : Vec α}
    (same : u.length = v.length) : combine f u v = .ok (List.zipWith f u v) := by
  simp [combine, same]

theorem fill_of_length_eq {n : Nat} {v : Vec α} (same : v.length = n) : fill n v = .ok v := by
  simp [fill, same]

theorem length_of_fill {n : Nat} {v w : Vec α} (filled : fill n v = .ok w) : w.length = n := by
  unfold fill at filled
  split at filled
  · next same =>
    cases filled
    exact same
  · split at filled
    · cases filled
      simp
    · cases filled

/-! ### Linear algebra -/

variable [Scalar α]

/-- The zero vector. -/
def zeros (n : Nat) : Vec α := List.replicate n 0

/-- Sums of entries. -/
def add (u v : Vec α) : Vec α := List.zipWith (· + ·) u v

/-- Differences of entries. -/
def sub (u v : Vec α) : Vec α := List.zipWith (· - ·) u v

/-- A multiple of a vector. -/
def smul (c : α) (v : Vec α) : Vec α := v.map (c * ·)

/-- A vector divided by a number. -/
def divBy (v : Vec α) (c : α) : Vec α := v.map (· / c)

/-- The inner product. -/
def dot (u v : Vec α) : α := (List.zipWith (· * ·) u v).sum

/-- The Euclidean norm, without scaling. -/
def norm (v : Vec α) : α := Scalar.sqrt (dot v v)

/-- The largest absolute value of an entry. -/
def maxNorm (v : Vec α) : α := v.foldl (fun m a => Scalar.max m (Scalar.abs a)) 0

/-- The inner product of vectors that must have the same length. -/
def dot? (u v : Vec α) : Except Error α :=
  if u.length = v.length then .ok (dot u v) else .error .shapeMismatch

/-- The sum of `c • z` over the pairs of a list of coefficients and a list of vectors of length
`n`. -/
def linearCombination (n : Nat) : List α → List (Vec α) → Vec α
  | c :: cs, z :: zs => add (smul c z) (linearCombination n cs zs)
  | _, _ => zeros n

/-! ### Lengths -/

@[simp] theorem length_zeros (n : Nat) : (zeros n : Vec α).length = n := by simp [zeros]

@[simp] theorem length_smul (c : α) (v : Vec α) : (smul c v).length = v.length := by simp [smul]

@[simp] theorem length_divBy (v : Vec α) (c : α) : (divBy v c).length = v.length := by
  simp [divBy]

@[simp] theorem length_add (u v : Vec α) : (add u v).length = min u.length v.length := by
  simp [add]

@[simp] theorem length_sub (u v : Vec α) : (sub u v).length = min u.length v.length := by
  simp [sub]

theorem length_linearCombination {n : Nat} (cs : List α) {zs : List (Vec α)}
    (lengths : ∀ z ∈ zs, z.length = n) : (linearCombination n cs zs).length = n := by
  induction cs generalizing zs with
  | nil => simp [linearCombination]
  | cons c cs ih =>
    cases zs with
    | nil => simp [linearCombination]
    | cons z zs =>
      have rest := ih fun w member => lengths w (List.mem_cons_of_mem z member)
      simp [linearCombination, rest, lengths z List.mem_cons_self]

end Vec

end NewtonKrylov
