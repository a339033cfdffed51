/-!
# What can go wrong

A computation that cannot go on names its cause. A cause carries what its text has to tell, and
`Error.message` words the causes that the library states itself; the others say only of which kind
they are.
-/

namespace NewtonKrylov

/-- The causes for which a computation is given up. -/
inductive Error where
  | shapeMismatch
  | negativeDimension
  | indexOutOfRange
  /-- A length was asked of a single number, or a number of something that holds none. -/
  | wrongType
  /-- A text stands where an array is compared or multiplied. -/
  | textOperand
  | emptyPath
  | malformedPath
  /-- A path with half of a character. -/
  | unencodablePath
  | pathTooLong
  /-- A part that has not been set was used. -/
  | notSet
  /-- The condition number of a matrix that has none. -/
  | conditionUndefined
  /-- A quotient by zero, in an arithmetic that refuses it. -/
  | zeroDivision
  /-- A square or an integer too large for the number format, where it is refused. -/
  | overflow
  | capacityExceedsRows (capacity rows : Int)
  | factorizationFull (capacity : Nat)
  | columnShape (rows : Nat) (shape : List Nat)
  | columnUnavailable (index : Int) (size : Nat)
  | guessShape (guess rhs : List Nat)
  | matrixShape (size : Nat) (shape : List Nat)
  | restartTooSmall (restart : Int)
  | negativeStepLimit (limit : Int)
  | notInitialized
  | noResidual
  | stateShape (shape : List Nat)
  | noJacobian (name : String)
  | noBlockDiagonal (name : String)
  /-- Something else stands where a spatial discretization is expected. -/
  | notADiscretization (name : String)
  /-- The Newton iteration, or a search in it, did not end within the repetitions it was given. -/
  | passLimit
  deriving Repr, DecidableEq

/-- A setting that may turn out to be unusable. It is read where it is needed, so an unusable one
does no harm before. -/
abbrev Setting (β : Type) := Except Error β

/-- The text of a shape: its sizes in parentheses, with a comma after a single one. -/
def shapeText : List Nat → String
  | [] => "()"
  | [n] => "(" ++ toString n ++ ",)"
  | ns => "(" ++ ", ".intercalate (ns.map toString) ++ ")"

namespace Error

/-- The text of a cause, for those that have one. -/
def message : Error → Option String
  | .capacityExceedsRows c r =>
    some ("max_columns (" ++ toString c ++ ") cannot exceed n_rows (" ++ toString r ++ ")")
  | .factorizationFull c => some ("QR arena is full (" ++ toString c ++ " columns)")
  | .columnShape n s =>
    some ("column must have shape " ++ shapeText [n] ++ ", got " ++ shapeText s)
  | .columnUnavailable j k =>
    some ("column " ++ toString j ++ " not available, factorization has " ++ toString k
      ++ " columns")
  | .guessShape g b =>
    some ("x0 shape " ++ shapeText g ++ " does not match b shape " ++ shapeText b)
  | .matrixShape n s =>
    some ("A must have shape " ++ shapeText [n, n] ++ ", got " ++ shapeText s)
  | .restartTooSmall m => some ("restart must be at least 1, got " ++ toString m)
  | .negativeStepLimit m => some ("maxiter must be non-negative, got " ++ toString m)
  | .notInitialized => some "JacobiPreconditioner used before initialize"
  | .noResidual => some "No residual bound to the solver"
  | .stateShape s => some ("State must be a 1D array, got shape " ++ shapeText s)
  | .noJacobian name => some (name ++ " does not provide a Jacobian")
  | .noBlockDiagonal name => some (name ++ " does not provide a block-diagonal Jacobian")
  | .notADiscretization name => some ("Expected a SpatialDiscretization, got " ++ name)
  | _ => none

end Error

end NewtonKrylov
