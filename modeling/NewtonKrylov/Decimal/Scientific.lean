import NewtonKrylov.Decimal.Rounding

/-!
# Scientific notation

A number in scientific notation has one digit before the point, a fixed number of places after it,
and an exponent of ten with its sign and at least two digits.
-/

namespace NewtonKrylov

namespace Decimal

/-- The digits of a number, with zeros in front up to a width. -/
def zeroPadded (width n : Nat) : String :=
  let digits := toString n
  String.ofList (List.replicate (width - digits.length) '0') ++ digits

/-- The mantissa and the exponent in scientific notation, the mantissa as an integer. -/
def Magnitude.scientific (places : Nat) (x : Magnitude) : Nat × Int :=
  if x.mantissa = 0 then (0, 0)
  else
    let e := x.exponent (places + 1)
    (x.onGrid (e - places), e)

/-- Write a number in scientific notation with so many places. -/
def scientific (places : Nat) (x : Float) : String :=
  match Parts.ofFloat x with
  | .nan => "nan"
  | .infinite negative => if negative then "-inf" else "inf"
  | .finite negative m =>
    let (k, e) := m.scientific places
    let digits := zeroPadded (places + 1) k
    let sign := if negative then "-" else ""
    let point := if places = 0 then "" else "."
    sign ++ digits.take 1 ++ point ++ digits.drop 1 ++ (if e < 0 then "e-" else "e+")
      ++ zeroPadded 2 e.natAbs

end Decimal

end NewtonKrylov
