import NewtonKrylov.Value
import NewtonKrylov.Tensor

/-!
# Hooks

A hook is called at a fixed point of the Newton iteration with the state there. Its answer may ask
the iteration to end or to go on; it does so as a request or as the name of one in any case of its
letters. All other answers mean nothing to the iteration.

A hook may answer differently each time: it is told how often it has been called before.
-/

namespace NewtonKrylov

/-- What a hook may ask for. -/
inductive HookRequest where
  | exit
  | notDone
  deriving Repr, DecidableEq

/-- The name of a request. -/
def HookRequest.name : HookRequest → String
  | exit => "exit"
  | notDone => "notDone"

/-- The answer of a hook. -/
inductive HookAnswer where
  | request (r : HookRequest)
  /-- Any other value, which may be the name of a request. -/
  | value (v : Value)
  deriving Repr

/-- Does an answer ask for `r`? No letter outside ASCII has one of the letters of the names as its
lower case, so lower case is taken letter by letter there. -/
def HookAnswer.asksFor (r : HookRequest) : HookAnswer → Bool
  | .request t => t = r
  | .value (.text t) => t.toLower = r.name.toLower
  | .value _ => false

/-- The points at which hooks are called. -/
inductive HookPoint where
  | presolve
  | postsolve
  | prestep
  | poststep
  deriving Repr, DecidableEq

/-- The name of a point. -/
def HookPoint.name : HookPoint → String
  | presolve => "presolve"
  | postsolve => "postsolve"
  | prestep => "prestep"
  | poststep => "poststep"

/-- A hook answers from the number of its earlier calls and the state. -/
abbrev Hook (α : Type) := Nat → Tensor α → HookAnswer

end NewtonKrylov
