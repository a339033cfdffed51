import NewtonKrylov.Rows

/-!
# Arrays of any rank

The arguments that a caller hands over may have any shape: a number, a vector, a matrix and so on.
A `Tensor` is a shape together with the entries in the order in which the last index runs fastest.

Entrywise operations follow the rule of vectors in every dimension, from the last one backwards: a
missing dimension counts as one, sizes that agree stay, and size one is spread over the other. The
statements below say that on vectors of one length they are the operations on vectors.
-/

namespace NewtonKrylov

/-- A rectangular array of any rank. -/
structure Tensor (α : Type) where
  shape : List Nat
  /-- The entries, last index fastest. -/
  entries : List α
  deriving Repr, Inhabited

/-- A function of arrays that may fail. -/
abbrev Operator (α : Type) := Tensor α → Except Error (Tensor α)

namespace Tensor

variable {α β γ : Type}

/-- The number of entries of an array with a given shape. -/
def count (shape : List Nat) : Nat := shape.foldr (· * ·) 1

/-- Is there an entry for each place? -/
def Full (t : Tensor α) : Prop := t.entries.length = count t.shape

/-- A single number. -/
def ofScalar (a : α) : Tensor α := ⟨[], [a]⟩

/-- An array of rank one. -/
def ofVec (v : Vec α) : Tensor α := ⟨[v.length], v⟩

/-- An array with one number in all places. -/
def constant (shape : List Nat) (a : α) : Tensor α := ⟨shape, List.replicate (count shape) a⟩

/-- The entries of an array of rank one. -/
def toVec? (t : Tensor α) : Option (Vec α) :=
  match t.shape with
  | [_] => some t.entries
  | _ => none

/-- The number that an array of rank zero holds. An array of another rank is not a number, even if
it has a single entry. -/
def number (t : Tensor α) : Except Error α :=
  match t.shape, t.entries with
  | [], [a] => .ok a
  | _, _ => .error .shapeMismatch

/-- The size of the first dimension, which a single number does not have. -/
def length (t : Tensor α) : Except Error Nat :=
  match t.shape with
  | [] => .error .wrongType
  | n :: _ => .ok n

/-- Arrays of one shape, stacked along a new first dimension. -/
def stack? (ts : List (Tensor α)) : Option (Tensor α) :=
  match ts with
  | [] => some ⟨[0], []⟩
  | t :: rest =>
    if rest.all (·.shape == t.shape) then
      some ⟨ts.length :: t.shape, ts.flatMap Tensor.entries⟩
    else none

/-- The parts of an array along its first dimension. -/
def slices (t : Tensor α) : List (Tensor α) :=
  match t.shape with
  | [] => []
  | n :: rest =>
    (List.range n).map fun i => ⟨rest, (t.entries.drop (i * count rest)).take (count rest)⟩

/-- Apply a function to every entry. -/
def map (f : α → β) (t : Tensor α) : Tensor β := ⟨t.shape, t.entries.map f⟩

/-! ### Spreading -/

/-- The shape of a combination of two arrays, from shapes with the last dimension first. -/
def joinShapes : List Nat → List Nat → Option (List Nat)
  | [], ns => some ns
  | ms, [] => some ms
  | m :: ms, n :: ns => do
    let rest ← joinShapes ms ns
    if m = n then some (m :: rest)
    else if m = 1 then some (n :: rest)
    else if n = 1 then some (m :: rest)
    else none

/-- The entries of an array of shape `source`, spread over shape `target` of the same rank. -/
def spread : List Nat → List Nat → List α → List α
  | s :: ss, t :: ts, entries =>
    let parts := (List.range s).map fun i =>
      spread ss ts ((entries.drop (i * count ss)).take (count ss))
    if s = t then parts.flatten else (List.replicate t parts.flatten).flatten
  | _, _, entries => entries

/-- An array spread over a larger shape. -/
def spreadTo (shape : List Nat) (t : Tensor α) : List α :=
  spread (List.replicate (shape.length - t.shape.length) 1 ++ t.shape) shape t.entries

/-- Apply an operation entrywise, spreading dimensions of size one. -/
def combine (f : α → β → γ) (s : Tensor α) (t : Tensor β) : Except Error (Tensor γ) :=
  if s.shape = t.shape then .ok ⟨s.shape, List.zipWith f s.entries t.entries⟩
  else
    match joinShapes s.shape.reverse t.shape.reverse with
    | none => .error .shapeMismatch
    | some joined =>
      let shape := joined.reverse
      .ok ⟨shape, List.zipWith f (s.spreadTo shape) (t.spreadTo shape)⟩

/-- Apply an operation entrywise where the result takes the place of the first operand, so that it
must have its shape. -/
def update (f : α → β → α) (s : Tensor α) (t : Tensor β) : Except Error (Tensor α) := do
  let u ← combine f s t
  if u.shape = s.shape then return u else throw .shapeMismatch

/-- The entries written into a vector of length `n`. Leading dimensions of size one are left out,
and a single number is written everywhere. -/
def fill (n : Nat) (t : Tensor α) : Except Error (Vec α) :=
  if t.shape.dropLast.all (· == 1) then Vec.fill n t.entries else .error .shapeMismatch

/-! ### Arrays of rank one and of one shape -/

theorem full_ofScalar (a : α) : (ofScalar a).Full := rfl

theorem full_ofVec (v : Vec α) : (ofVec v).Full := by simp [Full, ofVec, count]

@[simp] theorem toVec?_ofVec (v : Vec α) : (ofVec v).toVec? = some v := rfl

@[simp] theorem length_ofVec (v : Vec α) : (ofVec v).length = .ok v.length := rfl

@[simp] theorem map_ofVec (f : α → β) (v : Vec α) : (ofVec v).map f = ofVec (v.map f) := by
  simp [ofVec, map]

@[simp] theorem number_ofScalar (a : α) : (ofScalar a).number = .ok a := rfl

theorem combine_of_shape_eq (f : α → β → γ) {s : Tensor α} {t : Tensor β}
    (same : s.shape = t.shape) :
    combine f s t = .ok ⟨s.shape, List.zipWith f s.entries t.entries⟩ := by
  simp [combine, same]

theorem combine_ofVec (f : α → β → γ) {u : Vec α} {v : Vec β} (same : u.length = v.length) :
    combine f (ofVec u) (ofVec v) = .ok (ofVec (List.zipWith f u v)) := by
  rw [combine_of_shape_eq f (by simp [ofVec, same])]
  simp [ofVec, same]

theorem update_ofVec (f : α → β → α) {u : Vec α} {v : Vec β} (same : u.length = v.length) :
    update f (ofVec u) (ofVec v) = .ok (ofVec (List.zipWith f u v)) := by
  unfold update
  rw [combine_ofVec f same]
  simp [bind, Except.bind, pure, Except.pure, ofVec, same]

theorem fill_ofVec {n : Nat} {v : Vec α} (same : v.length = n) : (ofVec v).fill n = .ok v := by
  simp [fill, ofVec, Vec.fill_of_length_eq same]

theorem length_of_fill {n : Nat} {t : Tensor α} {v : Vec α} (filled : t.fill n = .ok v) :
    v.length = n := by
  unfold fill at filled
  split at filled
  · exact Vec.length_of_fill filled
  · cases filled

end Tensor

end NewtonKrylov
