import NewtonKrylov.Text.Printable

/-!
# Text literals

A text literal stands in single quotes, or in double quotes if it contains a single quote and no
double one. Inside, the quote of the literal and the backslash follow a backslash, three control
characters have a letter, and other characters that cannot be shown are given by their number in
base sixteen, with two, four or eight digits.
-/

namespace NewtonKrylov

namespace Text

/-- The digits of a number in base sixteen, with zeros in front up to a width. -/
def hex (width n : Nat) : List Char :=
  let digits := Nat.toDigits 16 n
  List.replicate (width - digits.length) '0' ++ digits

/-- A character of a literal, by its code number. -/
def literalCode (quote : Char) (n : Nat) : List Char :=
  let c := Char.ofNat n
  if n = quote.toNat || n = '\\'.toNat then ['\\', c]
  else if n = '\t'.toNat then ['\\', 't']
  else if n = '\n'.toNat then ['\\', 'n']
  else if n = '\r'.toNat then ['\\', 'r']
  else if isPrintable n then [c]
  else if n ≤ 0xff then '\\' :: 'x' :: hex 2 n
  else if n ≤ 0xffff then '\\' :: 'u' :: hex 4 n
  else '\\' :: 'U' :: hex 8 n

/-- The literal of a text with the given code numbers. -/
def literal (codes : List Nat) : String :=
  let single := '\''.toNat
  let quote := if codes.contains single && !codes.contains '"'.toNat then '"' else '\''
  String.ofList (quote :: codes.flatMap (literalCode quote) ++ [quote])

end Text

end NewtonKrylov
