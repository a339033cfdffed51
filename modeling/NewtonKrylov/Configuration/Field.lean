import NewtonKrylov.Value

/-!
# The fields of a configuration

A configuration has a fixed set of fields. Each has a name, a default value, and for most of them a
requirement on the value. The fields for real numbers are read as such, whatever the document gives.
-/

namespace NewtonKrylov

namespace Configuration

/-- The fields of a configuration. -/
inductive Field where
  | newtonDirectory
  | krylovDirectory
  | searchDirectory
  | newtonSteps
  | newtonTolerance
  | stepTolerance
  | difference
  | restarts
  | krylovSteps
  | krylovTolerance
  /-- The decay of the linear residual up to which it gives the next direction. -/
  | threshold
  | searchSteps
  | searchTolerance
  | presolve
  | postsolve
  | prestep
  | poststep
  deriving Repr, DecidableEq

namespace Field

/-- All fields. -/
def all : List Field :=
  [newtonDirectory, krylovDirectory, searchDirectory, newtonSteps, newtonTolerance,
    stepTolerance, difference, restarts, krylovSteps, krylovTolerance, threshold, searchSteps,
    searchTolerance, presolve, postsolve, prestep, poststep]

/-- The name of a field in a document. -/
def name : Field → String
  | newtonDirectory => "newton_dir"
  | krylovDirectory => "gmres_dir"
  | searchDirectory => "linesearch_dir"
  | newtonSteps => "N_newt"
  | newtonTolerance => "tol_newt"
  | stepTolerance => "tol_step"
  | difference => "eps0"
  | restarts => "N_restart"
  | krylovSteps => "N_gmres"
  | krylovTolerance => "tol_gmres"
  | threshold => "nu"
  | searchSteps => "N_search"
  | searchTolerance => "tol_search"
  | presolve => "presolve"
  | postsolve => "postsolve"
  | prestep => "prestep"
  | poststep => "poststep"

/-- The field with a name. -/
def ofName? (s : String) : Option Field := all.find? (·.name = s)

/-- The value of a field that is not given. -/
def default : Field → Value
  | newtonSteps => .int 100
  | newtonTolerance => .float 1e-6
  | difference => .float 1e-7
  | restarts => .int 1
  | krylovTolerance => .float 1e-10
  | threshold => .float 0.9
  | searchSteps => .int 50
  | searchTolerance => .float (100 / 4503599627370496)
  | _ => .null

/-- The fields that are read as real numbers, in the order in which this is done. -/
def reals : List Field :=
  [newtonTolerance, stepTolerance, difference, krylovTolerance, threshold, searchTolerance]

theorem mem_all (f : Field) : f ∈ all := by cases f <;> decide

theorem ofName?_name (f : Field) : ofName? f.name = some f := by cases f <;> decide

theorem name_injective {f g : Field} (same : f.name = g.name) : f = g := by
  have found := ofName?_name f
  rw [same, ofName?_name g] at found
  exact (Option.some.inj found).symm

end Field

end Configuration

end NewtonKrylov
