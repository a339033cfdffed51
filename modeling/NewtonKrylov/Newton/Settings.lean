import NewtonKrylov.Limit
import NewtonKrylov.Newton.Difference
import NewtonKrylov.Newton.Hook
import NewtonKrylov.Tolerance

/-!
# Settings of the Newton iteration

The limits and tolerances of the iteration, of the linear solves and of the line search, the hooks,
and the directories of the reports. A report without a directory is not written.

A setting is read where it is used. One that cannot be used for its purpose, such as a text in place
of a tolerance, makes the iteration fail there and not before.
-/

namespace NewtonKrylov

/-- A limit for a count. It need not be an integer, but then it cannot be the size of anything. -/
inductive CountLimit where
  | count (n : Int)
  /-- A number of another kind, by the least integer not below it, and whether it equals it. -/
  | number (ceiling : Int) (whole : Bool)
  /-- Every integer is below it. -/
  | infinite
  /-- No integer is below it. -/
  | nothing
  deriving Repr, DecidableEq

namespace CountLimit

/-- Is an integer below the limit? -/
def below (n : Int) : CountLimit → Bool
  | count m => n < m
  | number m _ => n < m
  | infinite => true
  | nothing => false

/-- Is the limit equal to an integer? -/
def equals (n : Int) : CountLimit → Bool
  | count m => m = n
  | number m whole => whole && m = n
  | _ => false

/-- The limit together with another one, which is an integer. -/
def atMost (n : Int) (l : CountLimit) : CountLimit := if l.below n then count n else l

/-- The size that is as large as the limit. -/
def size : CountLimit → Except Error Int
  | count n => .ok n
  | _ => .error .wrongType

/-- How often something may be repeated, with the patience for the case that there is no limit. -/
def toLimit (patience : Nat) : CountLimit → Limit
  | count n => .count n
  | number n _ => .count n
  | infinite => .endless patience .passLimit
  | nothing => .count 0

end CountLimit

/-- Settings of the Newton iteration. -/
structure Settings (α : Type) where
  newtonDirectory : Option (Setting String) := none
  krylovDirectory : Option (Setting String) := none
  searchDirectory : Option (Setting String) := none
  maxIterations : Setting Limit
  /-- The residual norm to reach. Every norm of a residual is a computed number. -/
  tolerance : Setting α
  /-- The size of a step, relative to the state, at which the iteration ends. -/
  stepTolerance : Option (Setting α)
  /-- The scale of the finite differences that stand for the Jacobian. -/
  difference : DifferenceScale α
  restarts : Setting Nat
  /-- The number of steps of a cycle, the dimension if it is not given. -/
  krylovSteps : Option (Setting CountLimit)
  krylovTolerance : Tolerance α
  /-- The decay of the linear residual up to which it gives the next direction. -/
  threshold : Setting α
  searchSteps : Setting Limit
  searchTolerance : Tolerance α
  hooks : HookPoint → Option (Setting (Hook α))
  /-- How many passes the hooks may ask for beyond the number of Newton steps. -/
  extraPasses : Nat := 0

end NewtonKrylov
