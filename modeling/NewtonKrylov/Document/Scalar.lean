import NewtonKrylov.Decimal.Reading
import NewtonKrylov.Document.Moment

/-!
# What a plain text means

A text without quotes is no value, a truth value, a number, a day of the calendar or a moment of it,
or itself. Which of these it is depends on its form alone:

* integers are written in base two, eight, ten or sixteen, or in groups of base sixty, and
  underscores in them count for nothing;
* real numbers have a point, and an exponent only with its sign; they may also be in groups of base
  sixty.

A text may have the form of a number or of a day and not be one.
-/

namespace NewtonKrylov

namespace Document

namespace Scalar

/-- Is every character a digit of base ten or an underscore? -/
def isDigits (cs : List Char) : Bool := cs.all fun c => c.isDigit || c == '_'

/-- The digits without underscores. -/
def withoutUnderscores (cs : List Char) : List Char := cs.filter (· != '_')

/-- The value of a digit in some base up to sixteen. -/
def digitValue (c : Char) : Nat :=
  if c.isDigit then c.toNat - '0'.toNat else c.toLower.toNat - 'a'.toNat + 10

/-- The number with the given digits. -/
def inBase (base : Nat) (cs : List Char) : Nat :=
  cs.foldl (fun n c => base * n + digitValue c) 0

/-- The number with the given digits of base ten, of which there may not be too many. -/
def decimal (cs : List Char) : Except Fault Nat :=
  if Decimal.digitLimit < cs.length then .error .unreadable else .ok (inBase 10 cs)

/-- The groups of a text between colons. -/
def groups (cs : List Char) : List (List Char) := cs.splitOn ':'

/-- Is this the group of one or two digits after a colon? -/
def isSixtieth : List Char → Bool
  | [a] => a.isDigit
  | [a, b] => '0' ≤ a && a ≤ '5' && b.isDigit
  | _ => false

/-! ### Integers -/

/-- Does a text have the form of an integer of base ten? -/
def isDecimal : List Char → Bool
  | ['0'] => true
  | c :: cs => c.isDigit && c != '0' && isDigits cs
  | [] => false

/-- The digits after the mark of a base other than ten, with the base. -/
def basedDigits? : List Char → Option (Nat × List Char)
  | '0' :: 'b' :: cs =>
    if !cs.isEmpty && cs.all (fun c => c == '0' || c == '1' || c == '_') then some (2, cs) else none
  | '0' :: 'x' :: cs =>
    if !cs.isEmpty && cs.all (fun c => c.isDigit || ('a' ≤ c && c ≤ 'f') || ('A' ≤ c && c ≤ 'F')
        || c == '_') then some (16, cs)
    else none
  | '0' :: cs =>
    if !cs.isEmpty && cs.all (fun c => ('0' ≤ c && c ≤ '7') || c == '_') then some (8, '0' :: cs)
    else none
  | _ => none

/-- The integer that a text without a sign has the form of. -/
def unsignedInteger? (cs : List Char) : Option (Except Fault Nat) :=
  match basedDigits? cs with
  | some (base, ds) =>
    let ds := withoutUnderscores ds
    some (if ds.isEmpty then .error .unreadable else .ok (inBase base ds))
  | none =>
    if isDecimal cs then some (decimal (withoutUnderscores cs))
    else
      match groups cs with
      | first :: second :: rest =>
        if isDecimal first && first != ['0'] && (second :: rest).all isSixtieth then
          some ((decimal (withoutUnderscores first)).map
            ((second :: rest).foldl fun n g => 60 * n + inBase 10 g))
        else none
      | _ => none

/-- The integer that a text has the form of. -/
def integer? (cs : List Char) : Option (Except Fault Int) :=
  let (negative, cs) := Decimal.splitSign cs
  (unsignedInteger? cs).map fun r => r.map fun n => if negative then -(n : Int) else n

/-! ### Real numbers -/

/-- Is this nothing, or an exponent with its sign? -/
def isExponent : List Char → Bool
  | [] => true
  | e :: s :: cs => (e == 'e' || e == 'E') && (s == '+' || s == '-') && !cs.isEmpty
    && cs.all Char.isDigit
  | _ => false

/-- Does a text start with a digit, of a whole that may have underscores? -/
def isWhole : List Char → Bool
  | c :: cs => c.isDigit && isDigits cs
  | [] => false

/-- Does a text without a sign have the form of a real number with digits before the point? -/
def isPointed (cs : List Char) : Bool :=
  let whole := cs.takeWhile (· != '.')
  match cs.dropWhile (· != '.') with
  | '.' :: rest => isWhole whole && isExponent (rest.dropWhile fun c => c.isDigit || c == '_')
  | _ => false

/-- Does a text have the form of a real number with no digit before the point? -/
def isFraction : List Char → Bool
  | '.' :: c :: rest => c.isDigit && isExponent (rest.dropWhile fun c => c.isDigit || c == '_')
  | _ => false

/-- The sum of the groups of a number of base sixty, the last group first. Each power of sixty has
to be in the range of real numbers. -/
def sumOfGroups (last : List (List Char)) : Except Fault Float :=
  last.zipIdx.foldlM (fun x (g, i) =>
    let unit := Float.ofNat (Nat.pow 60 i)
    if unit.isInf then .error .tooLarge
    else .ok (x + (Decimal.read? (withoutUnderscores g)).getD 0 * unit)) 0

/-- The real number in groups of base sixty that a text without a sign has the form of. -/
def sixtieths? (cs : List Char) : Option (Except Fault Float) :=
  let whole := cs.takeWhile (· != '.')
  match cs.dropWhile (· != '.'), groups whole with
  | '.' :: places, first :: second :: rest =>
    if isWhole first && (second :: rest).all isSixtieth && isDigits places then
      let parts := first :: (second :: rest).dropLast
      let last := (second :: rest).getLastD [] ++ '.' :: places
      some (sumOfGroups (last :: parts.reverse))
    else none
  | _, _ => none

/-- The real number that a text has the form of. -/
def real? (text : List Char) : Option (Except Fault Float) :=
  let (negative, cs) := Decimal.splitSign text
  let signed (x : Float) : Float := if negative then -x else x
  let name := String.ofList cs
  if name = ".inf" || name = ".Inf" || name = ".INF" then some (.ok (signed (1 / 0)))
  else if isPointed cs then (Decimal.read? (withoutUnderscores cs)).map fun x => .ok (signed x)
  else if isFraction text then (Decimal.read? (withoutUnderscores text)).map .ok
  else
    match sixtieths? cs with
    | some x => some (x.map signed)
    | none =>
      let whole := String.ofList text
      if whole = ".nan" || whole = ".NaN" || whole = ".NAN" then some (.ok (0 / 0)) else none

/-! ### All kinds -/

/-- The names of no value. -/
def nullNames : List String := ["", "~", "null", "Null", "NULL"]

/-- The names of a truth value. -/
def truthNames (b : Bool) : List String :=
  let names := if b then ["yes", "true", "on"] else ["no", "false", "off"]
  names.flatMap fun s => [s, s.capitalize, s.toUpper]

/-- The mark that a value stands for itself, which as a key is its own text. -/
def valueMark : String := "="

/-- The mark of a key whose value is merged into the mapping. -/
def mergeMark : String := "<<"

/-- The value of a text without quotes. The marks of the format are no values. -/
def ofPlain (text : String) : Except Fault Value :=
  let cs := text.toList
  if nullNames.contains text then .ok .null
  else if (truthNames true).contains text then .ok (.bool true)
  else if (truthNames false).contains text then .ok (.bool false)
  else if text = valueMark || text = mergeMark then .error .malformed
  else
    match real? cs with
    | some r => r.map Value.float
    | none =>
      match integer? cs with
      | some r => r.map Value.int
      | none => (Moment.ofText? cs).getD (.ok (.text text))

end Scalar

end Document

end NewtonKrylov
