import NewtonKrylov.Decimal.Rounding
import NewtonKrylov.Value

/-!
# Keys

The keys of a mapping are told apart by their values. Numbers of all kinds are equal if they have
the same value, and truth values count as one and zero; an integer is compared with a real number
without rounding. NaN is a single key, although it is not equal to itself. Texts are ordered by
their code numbers. Values of different kinds are different keys and have no order, and a collection
is no key.
-/

namespace NewtonKrylov

namespace Value

/-! ### Numbers -/

/-- The number that a value is, if it is an integer or a truth value. -/
def integer? : Value → Option Int
  | .bool b => some (if b then 1 else 0)
  | .int n => some n
  | _ => none

/-- A finite real number as a fraction. -/
def fraction (negative : Bool) (m : Decimal.Magnitude) : Int × Nat :=
  let (a, b) := m.overPower 0
  (if negative then -(a : Int) else a, b)

/-- Is an integer equal to a real number? -/
def intEqReal (n : Int) (x : Float) : Bool :=
  match Decimal.Parts.ofFloat x with
  | .finite negative m =>
    let (a, b) := fraction negative m
    n * b == a
  | _ => false

/-- Is an integer less than a real number? -/
def intLtReal (n : Int) (x : Float) : Bool :=
  match Decimal.Parts.ofFloat x with
  | .finite negative m =>
    let (a, b) := fraction negative m
    n * b < a
  | .infinite negative => !negative
  | .nan => false

/-- Is a real number less than an integer? -/
def realLtInt (x : Float) (n : Int) : Bool :=
  match Decimal.Parts.ofFloat x with
  | .finite negative m =>
    let (a, b) := fraction negative m
    a < n * b
  | .infinite negative => negative
  | .nan => false

/-! ### Equality -/

/-- Are two values the same key? -/
def sameKey (v w : Value) : Bool :=
  match v, w with
  | .null, .null => true
  | .date d, .date e => d == e
  | .moment m, .moment n => (m.comparable? n).any fun (s, t) => s == t
  | .float x, .float y => x == y || (x.isNaN && y.isNaN)
  | .float x, w => w.integer?.any (intEqReal · x)
  | v, .float y => v.integer?.any (intEqReal · y)
  | v, w =>
    match v.integer?, w.integer?, v.codes?, w.codes? with
    | some m, some n, _, _ => m == n
    | _, _, some cs, some ds => cs == ds
    | _, _, _, _ => false

/-- Can a value be a key? -/
def isKey : Value → Bool
  | .list _ => false
  | .mapping _ => false
  | _ => true

/-- Add an entry to those of a mapping. -/
def addEntry (key value : Value) : List (Value × Value) → List (Value × Value)
  | [] => [(key, value)]
  | (k, v) :: rest =>
    if k.sameKey key then (k, value) :: rest else (k, v) :: addEntry key value rest

/-- The keys among values, each once. -/
def distinct (vs : List Value) : List Value :=
  vs.foldl (fun seen v => if seen.any (·.sameKey v) then seen else seen ++ [v]) []

/-! ### Order -/

/-- Is a value less than another, where they can be compared? -/
def lessThan? (v w : Value) : Option Bool :=
  match v, w with
  | .date d, .date e => some (d.number < e.number)
  | .moment m, .moment n => (m.comparable? n).map fun (s, t) => s < t
  | .float x, .float y => some (x < y)
  | .float x, w => w.integer?.map (realLtInt x)
  | v, .float y => v.integer?.map (intLtReal · y)
  | v, w =>
    match v.integer?, w.integer?, v.codes?, w.codes? with
    | some m, some n, _, _ => some (m < n)
    | _, _, some cs, some ds => some (cs < ds)
    | _, _, _, _ => none

/-- Keys in increasing order, if any two of them can be compared. -/
def sort? (keys : List Value) : Option (List Value) :=
  let comparable := keys.all fun v => keys.all fun w =>
    v.sameKey w || (lessThan? v w).isSome
  if comparable then some (keys.mergeSort fun v w => lessThan? w v != some true) else none

end Value

end NewtonKrylov
