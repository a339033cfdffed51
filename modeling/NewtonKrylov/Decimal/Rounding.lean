/-!
# Binary64 numbers on a decimal grid

A finite number is a mantissa times a power of two, up to its sign. `Magnitude.onGrid p` is the
nearest multiple of `10 ^ p`, counted in units of `10 ^ p`, where a tie goes to the even count.
`Magnitude.exponent digits` is the decimal exponent of a number after it has been rounded to so many
significant digits, which may be one more than before.
-/

namespace NewtonKrylov

namespace Decimal

/-- The nearest integer to a quotient, the even one of two that are equally near. -/
def roundQuotient (numerator denominator : Nat) : Nat :=
  let q := numerator / denominator
  let r := numerator % denominator
  if 2 * r > denominator || (2 * r == denominator && q % 2 == 1) then q + 1 else q

/-- The number of decimal digits, none for zero. -/
def digitCount (n : Nat) : Nat := if n = 0 then 0 else digitCount (n / 10) + 1

/-- A rounded quotient is within one half of the quotient. -/
theorem roundQuotient_near (n : Nat) {d : Nat} (positive : 0 < d) :
    2 * n ≤ 2 * (roundQuotient n d * d) + d ∧ 2 * (roundQuotient n d * d) ≤ 2 * n + d := by
  have whole := Nat.div_add_mod n d
  have rest := Nat.mod_lt n positive
  rw [Nat.mul_comm] at whole
  unfold roundQuotient
  simp only
  split
  · next up =>
    rw [Nat.add_mul]
    simp only [Bool.or_eq_true, decide_eq_true_eq, Bool.and_eq_true, beq_iff_eq] at up
    omega
  · next down =>
    simp only [Bool.or_eq_true, decide_eq_true_eq, Bool.and_eq_true, beq_iff_eq, not_or] at down
    omega

/-- Of two integers that are equally near to a quotient, the even one is taken. -/
theorem roundQuotient_even {n d : Nat} (tie : 2 * (n % d) = d) : roundQuotient n d % 2 = 0 := by
  unfold roundQuotient
  simp only [tie, gt_iff_lt, Nat.lt_irrefl, decide_false, beq_self_eq_true, Bool.true_and,
    Bool.false_or, beq_iff_eq]
  split
  · next odd => omega
  · next even => omega

theorem lt_pow_digitCount (n : Nat) : n < Nat.pow 10 (digitCount n) := by
  fun_induction digitCount n with
  | case1 => decide
  | case2 n positive ih =>
    rw [Nat.pow, Nat.mul_eq]
    omega

theorem pow_digitCount_le {n : Nat} (positive : n ≠ 0) : Nat.pow 10 (digitCount n - 1) ≤ n := by
  fun_induction digitCount n with
  | case1 => contradiction
  | case2 n _ ih =>
    by_cases small : n / 10 = 0
    · simp [small, digitCount]
      omega
    · have tenth := ih small
      have more : digitCount (n / 10) ≠ 0 := by
        rw [digitCount]
        simp [small]
      obtain ⟨k, hk⟩ := Nat.exists_eq_succ_of_ne_zero more
      rw [hk] at tenth ⊢
      simp only [Nat.succ_eq_add_one, Nat.add_sub_cancel] at tenth ⊢
      rw [Nat.pow, Nat.mul_eq]
      omega

/-- A number without a sign: a mantissa times a power of two. -/
structure Magnitude where
  mantissa : Nat
  power : Int
  deriving Repr, DecidableEq

namespace Magnitude

/-- The numerator and denominator of a number divided by `10 ^ p`. -/
def overPower (x : Magnitude) (p : Int) : Nat × Nat :=
  (x.mantissa * Nat.pow 2 x.power.toNat * Nat.pow 10 (-p).toNat,
    Nat.pow 2 (-x.power).toNat * Nat.pow 10 p.toNat)

/-- The nearest multiple of `10 ^ p`, in units of `10 ^ p`. -/
def onGrid (x : Magnitude) (p : Int) : Nat :=
  let (n, d) := x.overPower p
  roundQuotient n d

/-- The largest `e` such that `10 ^ e` is not above a positive number. -/
def floorExponent (x : Magnitude) : Int :=
  let (n, d) := x.overPower 0
  if d ≤ n then (digitCount (n / d) : Int) - 1
  else -(digitCount ((d + n - 1) / n - 1) : Int)

/-- The decimal exponent of a positive number rounded to so many significant digits. -/
def exponent (digits : Nat) (x : Magnitude) : Int :=
  let e := x.floorExponent
  if Nat.pow 10 digits ≤ x.onGrid (e - digits + 1) then e + 1 else e

/-- The least integer that is not below the number with a sign. -/
def ceiling (negative : Bool) (x : Magnitude) : Int :=
  let (n, d) := x.overPower 0
  if negative then -((n / d : Nat) : Int) else ((n + d - 1) / d : Nat)

/-- Is the number an integer? -/
def isWhole (x : Magnitude) : Bool :=
  let (n, d) := x.overPower 0
  n % d = 0

end Magnitude

/-- A binary64 number taken apart. -/
inductive Parts where
  | nan
  | infinite (negative : Bool)
  | finite (negative : Bool) (magnitude : Magnitude)
  deriving Repr, DecidableEq

/-- Take a number apart. -/
def Parts.ofFloat (x : Float) : Parts :=
  let bits : Nat := x.toBits.toNat
  let negative := bits / Nat.pow 2 63 == 1
  let exponent : Nat := bits / Nat.pow 2 52 % Nat.pow 2 11
  let fraction := bits % Nat.pow 2 52
  if exponent = 2047 then (if fraction = 0 then .infinite negative else .nan)
  else if exponent = 0 then .finite negative ⟨fraction, -1074⟩
  else .finite negative ⟨Nat.pow 2 52 + fraction, (exponent : Int) - 1075⟩

end Decimal

end NewtonKrylov
