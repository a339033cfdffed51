import NewtonKrylov.Decimal.Shortest
import NewtonKrylov.Text.Literal
import NewtonKrylov.Value

/-!
# The text of a value

Keys that are refused are listed with their values written out: numbers by their shortest decimal,
texts as literals, days and moments as the call that makes them.
-/

namespace NewtonKrylov

/-- The text of a call with the given operands. -/
def callText (function : String) (operands : List String) : String :=
  function ++ "(" ++ ", ".intercalate operands ++ ")"

/-- The numbers of a day. -/
def Day.numbers (d : Day) : List Nat := [d.year, d.month, d.day]

/-- The text of a distance from universal time, as whole days and the seconds beyond them. -/
def offsetText (minutes : Int) : String :=
  if minutes = 0 then "datetime.timezone.utc"
  else
    let days := minutes / 1440
    let seconds := minutes % 1440 * 60
    let parts := (if days = 0 then [] else ["days=" ++ toString days])
      ++ (if seconds = 0 then [] else ["seconds=" ++ toString seconds])
    callText "datetime.timezone" [callText "datetime.timedelta" parts]

/-- The text of a moment. Seconds and their fractions are left out where nothing but zeros would
follow. -/
def momentText (m : Moment) : String :=
  let fine :=
    if m.microsecond ≠ 0 then [m.second, m.microsecond] else if m.second ≠ 0 then [m.second] else []
  let numbers := (m.day.numbers ++ [m.hour, m.minute] ++ fine).map toString
  let zone := match m.ahead with
    | none => []
    | some minutes => ["tzinfo=" ++ offsetText minutes]
  callText "datetime.datetime" (numbers ++ zone)

/-- The text of a value in a list of keys. -/
def Value.literal : Value → String
  | .null => "None"
  | .bool b => if b then "True" else "False"
  | .int n => toString n
  | .float x => Decimal.shortestText x
  | .text s => Text.literal (s.toList.map Char.toNat)
  | .codes cs => Text.literal cs
  | .date d => callText "datetime.date" (d.numbers.map toString)
  | .moment m => momentText m
  | .list _ | .mapping _ | .callable => ""

end NewtonKrylov
