import NewtonKrylov.Decimal.Rounding
import NewtonKrylov.Decimal.Scientific

/-!
# The shortest decimal that reads back

A decimal reads back as a binary64 number if it lies in the interval of reals that round to it,
whose ends belong to it if the mantissa is even. Among the decimals with the fewest digits that do,
`shortest` is the one nearest to the number. `shortestText` writes it with a point, or in
scientific notation where the exponent is below -4 or at least 16.
-/

namespace NewtonKrylov

namespace Decimal

/-- Compare `k * 10 ^ p` with `m * 2 ^ q`. -/
def comparePowers (k : Nat) (p : Int) (m : Nat) (q : Int) : Ordering :=
  compare (k * Nat.pow 10 p.toNat * Nat.pow 2 (-q).toNat)
    (m * Nat.pow 2 q.toNat * Nat.pow 10 (-p).toNat)

namespace Magnitude

/-- Does `k * 10 ^ p` read back as the number? Below a power of two the next number is only half
as far away. -/
def readsBack (x : Magnitude) (k : Nat) (p : Int) : Bool :=
  let half := if x.mantissa = Nat.pow 2 52 ∧ -1074 < x.power then 1 else 2
  let low := comparePowers k p (4 * x.mantissa - half) (x.power - 2)
  let high := comparePowers k p (4 * x.mantissa + 2) (x.power - 2)
  let even := x.mantissa % 2 = 0
  (low == .gt || (even && low == .eq)) && (high == .lt || (even && high == .eq))

/-- The nearest decimal with so many digits that reads back, if there is one. -/
def withDigits? (x : Magnitude) (digits : Nat) : Option (Nat × Int) :=
  let p := x.floorExponent - digits + 1
  let (n, d) := x.overPower p
  let near := x.onGrid p
  let far := if near = n / d then near + 1 else n / d
  if x.readsBack near p then some (near, p)
  else if x.readsBack far p then some (far, p)
  else none

/-- The shortest decimal that reads back, as an integer and a power of ten. -/
def shortest (x : Magnitude) : Nat × Int :=
  ((List.range 17).findSome? fun i => x.withDigits? (i + 1)).getD
    (x.onGrid (x.floorExponent - 16), x.floorExponent - 16)

end Magnitude

/-- Write digits with a point after the first `whole` of them, which may be none or more than there
are. -/
def positional (digits : List Char) (whole : Int) : List Char :=
  if whole ≤ 0 then '0' :: '.' :: List.replicate whole.natAbs '0' ++ digits
  else
    let zeros := List.replicate (whole.toNat - digits.length) '0'
    let places := digits.drop whole.toNat
    digits.take whole.toNat ++ zeros ++ '.' :: (if places.isEmpty then ['0'] else places)

/-- Write digits with a point after the first, and an exponent. -/
def withExponent (digits : List Char) (e : Int) : List Char :=
  let places := digits.drop 1
  digits.take 1 ++ (if places.isEmpty then [] else '.' :: places)
    ++ 'e' :: (if e < 0 then '-' else '+') :: (zeroPadded 2 e.natAbs).toList

/-- Remove the zeros at the end of digits. -/
def trimZeros (digits : List Char) : List Char :=
  (digits.reverse.dropWhile (· == '0')).reverse

/-- Write a number with the fewest digits that read back. -/
def shortestText (x : Float) : String :=
  match Parts.ofFloat x with
  | .nan => "nan"
  | .infinite negative => if negative then "-inf" else "inf"
  | .finite negative m =>
    let sign := if negative then "-" else ""
    if m.mantissa = 0 then sign ++ "0.0"
    else
      let (k, p) := m.shortest
      let digits := (toString k).toList
      let e := p + digits.length - 1
      let digits := trimZeros digits
      sign ++ String.ofList
        (if -4 ≤ e ∧ e < 16 then positional digits (e + 1) else withExponent digits e)

end Decimal

end NewtonKrylov
