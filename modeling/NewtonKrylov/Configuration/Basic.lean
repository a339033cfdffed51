import NewtonKrylov.Configuration.Refusal

/-!
# Configurations

A `Configuration` gives every field a value. `check` goes through the requirements in a fixed order
and reports the first that is not met; a value that cannot be compared with a number at all is of
the wrong kind. NaN meets no requirement.
-/

namespace NewtonKrylov

/-- A value for every field. -/
structure Configuration where
  get : Configuration.Field → Value

namespace Configuration

/-- The configuration in which no field is given. -/
def default : Configuration := ⟨Field.default⟩

/-- Give a field a value. -/
def set (p : Configuration) (f : Field) (v : Value) : Configuration :=
  ⟨fun g => if g = f then v else p.get g⟩

@[simp] theorem get_set_self (p : Configuration) (f : Field) (v : Value) :
    (p.set f v).get f = v := by simp [set]

theorem get_set_of_ne (p : Configuration) {f g : Field} (v : Value) (other : g ≠ f) :
    (p.set f v).get g = p.get g := by simp [set, other]

/-! ### Requirements -/

/-- Does an integer meet a requirement? -/
def Requirement.holdsOfInt (n : Int) : Requirement → Bool
  | .nonNegative => 0 ≤ n
  | .positive => 0 < n
  | .atLeastOne => 1 ≤ n
  | .callable => false

/-- Does a real number meet a requirement? -/
def Requirement.holdsOfFloat (x : Float) : Requirement → Bool
  | .nonNegative => 0 ≤ x
  | .positive => 0 < x
  | .atLeastOne => 1 ≤ x
  | .callable => false

/-- Does a value meet a requirement? Only numbers can be compared. -/
def Requirement.holds (r : Requirement) (v : Value) : Except Refusal Bool :=
  match r, v with
  | .callable, .callable => .ok true
  | .callable, _ => .ok false
  | r, .bool b => .ok (r.holdsOfInt (if b then 1 else 0))
  | r, .int n => .ok (r.holdsOfInt n)
  | r, .float x => .ok (r.holdsOfFloat x)
  | _, _ => .error .wrongKind

/-- Check a value. -/
def Check.run (c : Check) (v : Value) : Except Refusal Unit := do
  match c.optional, v with
  | true, .null => return ()
  | _, v => if ← c.requirement.holds v then return () else throw (.violated c)

/-- The requirements in the order in which they are checked. -/
def checks : List Check :=
  [⟨.newtonSteps, .nonNegative, false⟩, ⟨.newtonTolerance, .nonNegative, false⟩,
    ⟨.stepTolerance, .positive, true⟩, ⟨.difference, .positive, false⟩,
    ⟨.restarts, .atLeastOne, false⟩, ⟨.krylovSteps, .atLeastOne, true⟩,
    ⟨.krylovTolerance, .nonNegative, false⟩, ⟨.threshold, .nonNegative, false⟩,
    ⟨.searchSteps, .nonNegative, false⟩, ⟨.presolve, .callable, true⟩,
    ⟨.postsolve, .callable, true⟩, ⟨.prestep, .callable, true⟩, ⟨.poststep, .callable, true⟩]

/-- Check all requirements. -/
def check (p : Configuration) : Except Refusal Unit :=
  checks.forM fun c => c.run (p.get c.field)

end Configuration

end NewtonKrylov
