/-!
# Reading decimal numbers

A number is read from its digits as an integer times a power of ten, and rounded once. `read?` takes
a sign, digits with a point somewhere, and an exponent with or without a sign; it also takes the
names of infinity and of NaN in any case of their letters.
-/

namespace NewtonKrylov

namespace Decimal

/-- The number of digits up to which integers are read from decimal digits or written with them. -/
def digitLimit : Nat := 4300

/-- The number written by decimal digits. -/
def digitsValue (cs : List Char) : Nat :=
  cs.foldl (fun n c => 10 * n + (c.toNat - '0'.toNat)) 0

/-- The binary64 number nearest to `m * 10 ^ e`. Exponents far out of range are not computed. -/
def ofDigits (digits : List Char) (e : Int) : Float :=
  let m := digitsValue digits
  let significant : Int := (digits.dropWhile (· == '0')).length
  if m = 0 then 0
  else if significant + e > 400 then 1 / 0
  else if significant + e < -400 then 0
  else if e < 0 then Float.ofScientific m true e.natAbs
  else Float.ofScientific m false e.natAbs

/-- A sign and what comes after it. -/
def splitSign : List Char → Bool × List Char
  | '-' :: cs => (true, cs)
  | '+' :: cs => (false, cs)
  | cs => (false, cs)

/-- Read the exponent after the digits, zero if nothing is left. -/
def readExponent? : List Char → Option Int
  | [] => some 0
  | c :: cs =>
    if c = 'e' || c = 'E' then
      let (negative, ds) := splitSign cs
      if ds.isEmpty || !ds.all Char.isDigit then none
      else
        let n : Int := digitsValue (if ds.length > 12 then ds.dropWhile (· == '0') else ds)
        some (if negative then -n else n)
    else none

/-- Read a number without a sign. -/
def readUnsigned? (cs : List Char) : Option Float :=
  let name := String.ofList (cs.map Char.toLower)
  if name = "inf" || name = "infinity" then some (1 / 0)
  else if name = "nan" then some (0 / 0)
  else
    let whole := cs.takeWhile Char.isDigit
    let rest := cs.dropWhile Char.isDigit
    let (places, rest) := match rest with
      | '.' :: rest => (rest.takeWhile Char.isDigit, rest.dropWhile Char.isDigit)
      | _ => ([], rest)
    if whole.isEmpty && places.isEmpty then none
    else (readExponent? rest).map fun e => ofDigits (whole ++ places) (e - places.length)

/-- Read a number. -/
def read? (cs : List Char) : Option Float :=
  let (negative, cs) := splitSign cs
  (readUnsigned? cs).map fun x => if negative then -x else x

end Decimal

end NewtonKrylov
