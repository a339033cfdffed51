/-!
# Days and moments

A `Day` of the calendar that counts leap years as if it had always been in use, from year one to
year 9999, and a `Moment` of a day. A moment may tell how far its clock is ahead of universal time;
such moments are ordered by their instant, and other moments by what the clock shows. The two kinds
are not comparable with each other.
-/

namespace NewtonKrylov

/-- A day of the calendar. -/
structure Day where
  year : Nat
  /-- The month, from one. -/
  month : Nat
  /-- The day of the month, from one. -/
  day : Nat
  deriving Repr, DecidableEq

/-- A moment of a day. -/
structure Moment where
  day : Day
  hour : Nat
  minute : Nat
  second : Nat
  microsecond : Nat
  /-- How many minutes the clock is ahead of universal time, if this is known. -/
  ahead : Option Int
  deriving Repr, DecidableEq

namespace Day

/-- Is a year a leap year? -/
def isLeap (year : Nat) : Bool := year % 4 = 0 && (year % 100 ≠ 0 || year % 400 = 0)

/-- The number of days of a month. -/
def daysIn (year month : Nat) : Nat :=
  if month = 2 then (if isLeap year then 29 else 28)
  else if [4, 6, 9, 11].contains month then 30 else 31

/-- Is there such a day? -/
def isValid (d : Day) : Bool :=
  1 ≤ d.year && d.year ≤ 9999 && 1 ≤ d.month && d.month ≤ 12 && 1 ≤ d.day
    && d.day ≤ daysIn d.year d.month

/-- The number of days from the first day of year one up to and with a day. -/
def number (d : Day) : Nat :=
  let y := d.year - 1
  let months := ((List.range (d.month - 1)).map fun m => daysIn d.year (m + 1)).foldr (· + ·) 0
  365 * y + y / 4 - y / 100 + y / 400 + months + d.day

end Day

namespace Moment

/-- Is there such a moment? A clock is less than a day away from universal time. -/
def isValid (m : Moment) : Bool :=
  m.day.isValid && m.hour < 24 && m.minute < 60 && m.second < 60
    && m.ahead.all fun a => a.natAbs < 1440

/-- The millionths of a second on the clock since the start of the calendar. -/
def clock (m : Moment) : Int :=
  (((m.day.number * 24 + m.hour) * 60 + m.minute) * 60 + m.second) * 1000000 + m.microsecond

/-- The instant, in millionths of a second of universal time, if it is known. -/
def instant? (m : Moment) : Option Int := m.ahead.map fun a => m.clock - a * 60000000

/-- The places of two moments in the order of time, if they are comparable. -/
def comparable? (m n : Moment) : Option (Int × Int) :=
  match m.instant?, n.instant? with
  | some s, some t => some (s, t)
  | none, none => some (m.clock, n.clock)
  | _, _ => none

end Moment

end NewtonKrylov
