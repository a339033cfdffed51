/-!
# Why a document cannot be read

A document may not follow the grammar, or it may follow the grammar and name something that does not
exist: a day, a character, a number that no format holds. Collections may also be nested too deeply.
-/

namespace NewtonKrylov

namespace Document

/-- Why a document cannot be read. -/
inductive Fault where
  | malformed
  | unreadable
  | tooLarge
  | tooDeep
  deriving Repr, DecidableEq

end Document

end NewtonKrylov
