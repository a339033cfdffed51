import NewtonKrylov.Calendar

/-!
# Values of a configuration

A configuration document holds values of a few kinds. A value knows its kind only when the program
runs, since the same field may be given as a number in one document and as a text in the next.

A document may also hold texts that no sequence of characters makes up, because it can name the
halves of a character one by one. Such a text is kept as a sequence of code numbers.
-/

namespace NewtonKrylov

/-- A value of a configuration. -/
inductive Value where
  | null
  | bool (b : Bool)
  | int (n : Int)
  | float (x : Float)
  | text (s : String)
  /-- A text in which some code number is that of no character. -/
  | codes (cs : List Nat)
  | list (vs : List Value)
  /-- A mapping, in the order in which its keys were first given. -/
  | mapping (entries : List (Value × Value))
  | date (d : Day)
  | moment (m : Moment)
  | callable
  deriving Repr, Inhabited

namespace Value

/-- The text with the given code numbers. -/
def ofCodes (cs : List Nat) : Value :=
  if cs.all (·.isValidChar) then .text (String.ofList (cs.map Char.ofNat)) else .codes cs

/-- The code numbers of a text. -/
def codes? : Value → Option (List Nat)
  | .text s => some (s.toList.map Char.toNat)
  | .codes cs => some cs
  | _ => none

end Value

end NewtonKrylov
