import NewtonKrylov.Configuration.Field
import NewtonKrylov.Configuration.Literal
import NewtonKrylov.Document.Fault

/-!
# Why a configuration is refused

A document may be missing or malformed, a value may not be of the kind that is needed, keys may be
unknown, and a value may not meet the requirement of its field. `Refusal.message` words the last
two.
-/

namespace NewtonKrylov

namespace Configuration

/-- What the value of a field has to be. -/
inductive Requirement where
  | nonNegative
  | positive
  | atLeastOne
  | callable
  deriving Repr, DecidableEq

/-- The text of a requirement. -/
def Requirement.text : Requirement → String
  | nonNegative => "non-negative"
  | positive => "positive"
  | atLeastOne => "at least 1"
  | callable => "callable"

/-- A requirement on a field, which may also have no value. -/
structure Check where
  field : Field
  requirement : Requirement
  /-- May it have no value? -/
  optional : Bool
  deriving Repr, DecidableEq

/-- The text of a violated requirement. -/
def Check.message (c : Check) : String :=
  (if c.requirement = .callable then "Hook " else "") ++ c.field.name ++ " must be "
    ++ c.requirement.text ++ (if c.optional then " or None." else ".")

/-- Why a configuration is refused. -/
inductive Refusal where
  | missing
  | fault (cause : Document.Fault)
  /-- A value is not of the kind that is needed. -/
  | wrongKind
  | notAMapping
  | unknownKeys (path : String) (keys : List Value)
  | violated (check : Check)
  deriving Repr

/-- The text of a refusal, for those that have one. -/
def Refusal.message : Refusal → Option String
  | .unknownKeys path keys =>
    some ("Unknown parameters in " ++ path ++ ": [" ++ ", ".intercalate (keys.map Value.literal)
      ++ "]")
  | .violated check => some check.message
  | _ => none

end Configuration

end NewtonKrylov
