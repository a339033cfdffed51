import NewtonKrylov.Error

/-!
# Limits

How often something may be repeated is a number, of which none below zero allows anything, or it is
not limited at all. A repetition without a limit need not come to an end. So that it can be run, it
is given up after so many times, for a cause that is part of the limit. What it comes to by itself
is what it comes to for every patience that is large enough, whatever the cause would be.
-/

namespace NewtonKrylov

/-- A limit for repetitions. -/
inductive Limit where
  | count (n : Int)
  /-- There is no limit, but after so many of them they are given up, for this cause. -/
  | endless (patience : Nat) (cause : Error)
  deriving Repr, DecidableEq

namespace Limit

/-- Does the limit allow another repetition after `k` of them? -/
def allows (k : Nat) : Limit → Bool
  | count n => decide ((k : Int) < n)
  | endless _ _ => true

/-- How many repetitions are made at most. -/
def room : Limit → Nat
  | count n => n.toNat
  | endless patience _ => patience

/-- The limit with another patience and another cause, which are nothing to a number. -/
def patient (k : Nat) (cause : Error) : Limit → Limit
  | count n => count n
  | endless _ _ => endless k cause

@[simp] theorem allows_count (k : Nat) (n : Int) :
    (count n).allows k = decide ((k : Int) < n) := rfl

@[simp] theorem room_count (n : Int) : (count n).room = n.toNat := rfl

theorem allows_zero_of_room {l : Limit} (some : 0 < l.room) : l.allows 0 = true := by
  cases l with
  | count n => exact decide_eq_true (by rw [room_count] at some; omega)
  | endless _ _ => rfl

@[simp] theorem patient_count (k : Nat) (cause : Error) (n : Int) :
    (count n).patient k cause = count n := rfl

@[simp] theorem patient_endless (k p : Nat) (cause cause' : Error) :
    (endless p cause').patient k cause = endless k cause := rfl

end Limit

end NewtonKrylov
