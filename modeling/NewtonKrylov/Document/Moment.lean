import NewtonKrylov.Document.Fault
import NewtonKrylov.Value

/-!
# Days and moments in a document

A day is written with four, two and two digits, with dashes between them. A moment of a day follows
it after the letter T or after blanks, with colons between hours, minutes and seconds, a point
before fractions of a second, and at the end the letter Z for universal time or the distance from
it. With a moment, months, days and hours may have a single digit.

A text may have this form and not be a day or a moment.
-/

namespace NewtonKrylov

namespace Document

namespace Moment

/-- A number of at least `low` and at most `high` digits at the start of a text, with the rest. -/
def digits? (low high : Nat) (cs : List Char) : Option (Nat × List Char) :=
  let ds := (cs.take high).takeWhile Char.isDigit
  if ds.length < low then none
  else some (ds.foldl (fun n c => 10 * n + (c.toNat - '0'.toNat)) 0, cs.drop ds.length)

/-- What follows a sign at the start of a text. -/
def after? (sign : Char) : List Char → Option (List Char)
  | c :: cs => if c = sign then some cs else none
  | [] => none

/-- Leave out blanks. -/
def skipBlanks (cs : List Char) : List Char := cs.dropWhile fun c => c = ' ' || c = '\t'

/-- A day with so many digits for month and day at least, with the rest of the text. -/
def day? (low : Nat) (cs : List Char) : Option (Day × List Char) := do
  let (year, cs) ← digits? 4 4 cs
  let (month, cs) ← digits? low 2 (← after? '-' cs)
  let (day, cs) ← digits? low 2 (← after? '-' cs)
  return (⟨year, month, day⟩, cs)

/-- What follows the letter or the blanks between a day and the time of the day. -/
def afterDay? : List Char → Option (List Char)
  | c :: cs =>
    if c = 'T' || c = 't' then some cs
    else if c = ' ' || c = '\t' then some (skipBlanks cs)
    else none
  | [] => none

/-- The millionths of a second that the digits after a point give, and the rest of the text. -/
def fraction (cs : List Char) : Nat × List Char :=
  match cs with
  | '.' :: cs =>
    let ds := cs.takeWhile Char.isDigit
    let kept := ds.take 6 ++ List.replicate (6 - ds.length) '0'
    (kept.foldl (fun n c => 10 * n + (c.toNat - '0'.toNat)) 0, cs.dropWhile Char.isDigit)
  | cs => (0, cs)

/-- The distance from universal time in minutes, after its sign. -/
def distance? (cs : List Char) : Option Int := do
  let (hours, cs) ← digits? 1 2 cs
  if cs.isEmpty then return 60 * hours
  let (minutes, cs) ← digits? 2 2 (← after? ':' cs)
  if cs.isEmpty then return 60 * hours + minutes else none

/-- The distance from universal time at the end of a text, where there may be none. -/
def zone? (cs : List Char) : Option (Option Int) :=
  if cs.isEmpty then some none
  else
    match skipBlanks cs with
    | ['Z'] => some (some 0)
    | '+' :: cs => (distance? cs).map some
    | '-' :: cs => (distance? cs).map fun m => some (-m)
    | _ => none

/-- The moment that a text has the form of. -/
def moment? (cs : List Char) : Option Moment := do
  let (day, cs) ← day? 1 cs
  let (hour, cs) ← digits? 1 2 (← afterDay? cs)
  let (minute, cs) ← digits? 2 2 (← after? ':' cs)
  let (second, cs) ← digits? 2 2 (← after? ':' cs)
  let (microsecond, cs) := fraction cs
  return ⟨day, hour, minute, second, microsecond, ← zone? cs⟩

/-- The day or moment that a text has the form of. -/
def ofText? (cs : List Char) : Option (Except Fault Value) :=
  match day? 2 cs with
  | some (d, []) => some (if d.isValid then .ok (.date d) else .error .unreadable)
  | _ => (moment? cs).map fun m => if m.isValid then .ok (.moment m) else .error .unreadable

end Moment

end Document

end NewtonKrylov
