import Mathlib.Data.Prod.Lex
import NewtonKrylov.Proofs.Extended

/-!
# Comparisons with values that are no numbers

In a floating point format `≤` is not reflexive, and `¬ a ≤ b` does not give `b < a`. What remains
is that comparable values are numbers, and that numbers are ordered. `LawfulComparison` says so, and
it holds of binary64 numbers as well as of exact arithmetic, with or without exceptional values.

A binary64 value that is a number has a place among the others: infinities lie at the ends, zeros of
either sign at one place, and the values between are ordered by exponent first and by mantissa then.
-/

namespace NewtonKrylov

/-- The laws of the comparisons of a number format. -/
class LawfulComparison (α : Type) [Scalar α] : Prop where
  isNaN_left {a b : α} : a ≤ b → Scalar.isNaN a = false
  isNaN_right {a b : α} : a ≤ b → Scalar.isNaN b = false
  le_of_lt {a b : α} : a < b → a ≤ b
  le_trans {a b c : α} : a ≤ b → b ≤ c → a ≤ c

/-- It is enough that all values but the undefined ones have a place in some order. -/
lemma LawfulComparison.of_place {α β : Type} [Scalar α] [Preorder β] (place : α → Option β)
    (isNaN_eq : ∀ a, Scalar.isNaN a = (place a).isNone)
    (le_iff : ∀ a b : α, a ≤ b ↔ ∃ p ∈ place a, ∃ q ∈ place b, p ≤ q)
    (lt_iff : ∀ a b : α, a < b ↔ ∃ p ∈ place a, ∃ q ∈ place b, p < q) : LawfulComparison α where
  isNaN_left {a b} le := by
    obtain ⟨p, at_a, -⟩ := (le_iff a b).mp le
    rw [isNaN_eq, Option.mem_def.mp at_a, Option.isNone_some]
  isNaN_right {a b} le := by
    obtain ⟨-, -, q, at_b, -⟩ := (le_iff a b).mp le
    rw [isNaN_eq, Option.mem_def.mp at_b, Option.isNone_some]
  le_of_lt {a b} lt := by
    obtain ⟨p, at_a, q, at_b, lt⟩ := (lt_iff a b).mp lt
    exact (le_iff a b).mpr ⟨p, at_a, q, at_b, lt.le⟩
  le_trans {a b c} le_b le_c := by
    obtain ⟨p, at_a, q, at_b, le⟩ := (le_iff a b).mp le_b
    obtain ⟨q', at_b', r, at_c, le'⟩ := (le_iff b c).mp le_c
    obtain rfl : q = q' := Option.mem_unique at_b at_b'
    exact (le_iff a c).mpr ⟨p, at_a, r, at_c, le.trans le'⟩

namespace Binary64

open Float.Model

/-- Where a number lies: its class, its exponent and its mantissa. -/
def place : UnpackedFloat → Option (ℤ ×ₗ ℤ ×ₗ ℤ)
  | .notANumber => none
  | .infinity .negative => some (toLex (-2, toLex (0, 0)))
  | .finite .negative mantissa exponent _ => some (toLex (-1, toLex (-exponent, -mantissa)))
  | .zero _ => some (toLex (0, toLex (0, 0)))
  | .finite .positive mantissa exponent _ => some (toLex (1, toLex (exponent, mantissa)))
  | .infinity .positive => some (toLex (2, toLex (0, 0)))

lemma isNaN_eq (x : UnpackedFloat) : x.isNaN = (place x).isNone := by
  rcases x with (_ | _) | _ | _ | ⟨_ | _⟩ <;> rfl

lemma compare_sign (s t : UnpackedFloat.Sign) :
    compare s t = match s, t with
      | .negative, .positive => .lt
      | .positive, .negative => .gt
      | _, _ => .eq := by
  cases s <;> cases t <;> rfl

lemma isGE_then {o₁ o₂ : Ordering} :
    (o₁.then o₂).isGE = true ↔ o₁ = .gt ∨ o₁ = .eq ∧ o₂.isGE = true := by
  cases o₁ <;> simp

lemma le_iff (x y : UnpackedFloat) :
    x.le y = true ↔ ∃ p ∈ place x, ∃ q ∈ place y, p ≤ q := by
  rcases x with (_ | _) | _ | _ | ⟨_ | _, m, e, _⟩ <;>
    rcases y with (_ | _) | _ | _ | ⟨_ | _, m', e', _⟩ <;>
    dsimp only [UnpackedFloat.le, UnpackedFloat.compare, place] <;>
    simp [compare_sign, Ordering.isLE_then_iff_or, isGE_then, Prod.Lex.toLex_le_toLex,
      Int.compare_eq_lt, Int.compare_eq_gt, Nat.isLE_compare, Nat.isGE_compare]

lemma lt_iff (x y : UnpackedFloat) :
    x.lt y = true ↔ ∃ p ∈ place x, ∃ q ∈ place y, p < q := by
  rcases x with (_ | _) | _ | _ | ⟨_ | _, m, e, _⟩ <;>
    rcases y with (_ | _) | _ | _ | ⟨_ | _, m', e', _⟩ <;>
    dsimp only [UnpackedFloat.lt, UnpackedFloat.compare, place] <;>
    simp [compare_sign, Ordering.then_eq_lt, Ordering.then_eq_gt, Prod.Lex.toLex_lt_toLex,
      Int.compare_eq_lt, Int.compare_eq_gt, Nat.compare_eq_lt, Nat.compare_eq_gt]

/-- The place of a binary64 number. -/
def placeOf (a : Float) : Option (ℤ ×ₗ ℤ ×ₗ ℤ) := place a.toModel.unpack

lemma isNaN_iff (a : Float) : a.isNaN = (placeOf a).isNone := isNaN_eq _

lemma float_le_iff (a b : Float) : a ≤ b ↔ ∃ p ∈ placeOf a, ∃ q ∈ placeOf b, p ≤ q :=
  decide_eq_true_iff.trans (le_iff _ _)

lemma float_lt_iff (a b : Float) : a < b ↔ ∃ p ∈ placeOf a, ∃ q ∈ placeOf b, p < q :=
  decide_eq_true_iff.trans (lt_iff _ _)

end Binary64

instance : LawfulComparison Float :=
  .of_place Binary64.placeOf Binary64.isNaN_iff Binary64.float_le_iff Binary64.float_lt_iff

instance : LawfulComparison Strict :=
  .of_place (fun a => Binary64.placeOf a.value) (fun a => Binary64.isNaN_iff a.value)
    (fun a b => Binary64.float_le_iff a.value b.value)
    (fun a b => Binary64.float_lt_iff a.value b.value)

namespace Extended

/-- The place of an extended number is the number. -/
def place : Extended → Option EReal
  | number x => some x
  | nan => none

open scoped Classical in
lemma isNaN_eq (a : Extended) : Scalar.isNaN a = (place a).isNone := by
  cases a with
  | number x => exact decide_eq_false (by simp)
  | nan => exact decide_eq_true rfl

/-- A comparison is one of places. -/
lemma holds_iff (r : EReal → EReal → Prop) (a b : Extended) :
    Holds r a b ↔ ∃ p ∈ place a, ∃ q ∈ place b, r p q := by
  cases a <;> cases b <;> simp [Holds, place]

end Extended

instance : LawfulComparison Extended :=
  .of_place Extended.place Extended.isNaN_eq (Extended.holds_iff (· ≤ ·))
    (Extended.holds_iff (· < ·))

end NewtonKrylov
