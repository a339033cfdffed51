import NewtonKrylov.Proofs.LinearSystem.Decay

/-!
# The plain method behind the preconditioned one

A guess and preconditioners are a change of variables. The cycles see the operator only together
with both preconditioners, and of the right hand side and the guess only the preconditioned
residual. So they are the cycles of a system without guess and preconditioners, whose solution is
the correction to the guess in front of the right preconditioner. That preconditioner is applied
once, at the end.

The plain system starts from the point zero, which the preconditioned operator has to leave at
zero. Beyond that neither the operator nor the preconditioners need to be linear.
-/

namespace NewtonKrylov

/-- The options without a guess and without preconditioners. -/
def LinearOptions.plain {α : Type} (o : LinearOptions α) : LinearOptions α :=
  { o with guess := none, left := .ok, right := .ok }

namespace LinearSystem

open Vec

section Plain

variable {α : Type} {n : ℕ} {o : LinearOptions α}

/-- Without preconditioners the operator is left as it is. -/
@[simp] lemma preconditioned_plain (f : Operator α) : preconditioned o.plain f = f := by
  funext z
  simp only [preconditioned, LinearOptions.plain, ok_bind]
  cases f z <;> rfl

lemma limitsOk_plain_iff : LimitsOk n o.plain ↔ LimitsOk n o := limitsOk_congr rfl rfl

variable [Scalar α]

/-- The plain system for the preconditioned operator has the same cycles. -/
lemma runCycles_plain (f : Operator α) (r : Vec α) :
    runCycles n o.plain (preconditioned o f) r = runCycles n o f r := by
  unfold runCycles
  rw [preconditioned_plain]
  rfl

end Plain

variable {n : ℕ} {A : LinearOperator ℝ} {o : LinearOptions ℝ} {f : Operator ℝ}
  {M L R : Space n → Space n}

/-- The plain system for the preconditioned operator. -/
lemma Maps.plain (maps : Maps n A o f M L R) :
    Maps n (.function (preconditioned o f)) o.plain (preconditioned o f) (L ∘ M ∘ R) id id :=
  ⟨rfl, maps.actsAs_preconditioned, ActsAs.ok, ActsAs.ok⟩

/-- The method goes through as it does for the plain system whose operator is the preconditioned one
and whose right hand side is the preconditioned residual of the guess. The history is the same, and
the solution is the guess with the image of the plain solution under the right preconditioner.
Limits of the steps that are refused are refused for both, with the same error. -/
theorem Maps.solve_reduces (maps : Maps n A o f M L R) (fixed : L (M (R 0)) = 0) (b : Space n)
    {x₀ : Space n} (guess : GuessIs n o x₀) :
    (LimitsOk n o → ∃ y : Space n, ∃ history,
      solve (.function (preconditioned o f)) (Tensor.ofVec (ofSpace (L (b - M x₀)))) o.plain
        = .ok ⟨Tensor.ofVec (ofSpace y), history⟩ ∧
      solve A (Tensor.ofVec (ofSpace b)) o
        = .ok ⟨Tensor.ofVec (ofSpace (x₀ + R y)), history⟩) ∧
    (¬ LimitsOk n o →
      solve (.function (preconditioned o f)) (Tensor.ofVec (ofSpace (L (b - M x₀)))) o.plain
        = .error (limitsError n o) ∧
      solve A (Tensor.ofVec (ofSpace b)) o = .error (limitsError n o)) := by
  have start : GuessIs n o.plain 0 := .inr ⟨rfl, rfl⟩
  constructor
  · intro limits
    obtain ⟨last, ran, length, -⟩ := maps.runCycles_isChain (L (b - M x₀))
    refine ⟨toSpace n last.update, last.history, ?_, maps.solve_eq limits guess ran length⟩
    -- The residual of the plain system at zero is its right hand side.
    have residual : L (b - M x₀) - (L ∘ M ∘ R) 0 = L (b - M x₀) := by
      rw [Function.comp_apply, Function.comp_apply, fixed, sub_zero]
    rw [← runCycles_plain, ← residual] at ran
    have solved := maps.plain.solve_eq (limitsOk_plain_iff.mpr limits) start ran length
    rwa [id_eq, zero_add] at solved
  · intro refused
    exact ⟨solve_eq_error (o := o.plain) (length_ofSpace _)
        (fun limits => refused (limitsOk_plain_iff.mp limits)) start.getD (length_ofSpace _) rfl,
      solve_eq_error (length_ofSpace _) refused guess.getD (length_ofSpace _) maps.resolved⟩

/-- The function that squares each entry. -/
noncomputable def square : Operator ℝ := fun t => .ok (t.map fun a => a * a)

lemma actsAs_square : ActsAs square fun x : Space n => WithLp.toLp 2 fun i => x i * x i :=
  .entrywise fun a => a * a

/-- A system of two equations with two quadratic functions, which has a guess and is restarted after
each step. -/
theorem solve_reduces_square :
    ∃ y : Space 2, ∃ history,
      solve (.function (preconditioned { tolerance := 0, threshold := 1, right := square } square))
          (Tensor.ofVec (ofSpace !₂[2, 8])) { tolerance := 0, threshold := 1, restart := some 1 }
        = .ok ⟨Tensor.ofVec (ofSpace y), history⟩ ∧
      solve (.function square) (Tensor.ofVec (ofSpace !₂[3, 9]))
          { tolerance := 0, threshold := 1, restart := some 1, right := square,
            guess := some (Tensor.ofVec (ofSpace !₂[1, 1])) }
        = .ok ⟨Tensor.ofVec (ofSpace (!₂[1, 1] + !₂[y 0 * y 0, y 1 * y 1])), history⟩ := by
  have maps : Maps 2 (.function square)
      { tolerance := 0, threshold := 1, restart := some 1, right := square,
        guess := some (Tensor.ofVec (ofSpace !₂[1, 1])) } square _ id _ :=
    ⟨rfl, actsAs_square, ActsAs.ok, actsAs_square⟩
  obtain ⟨goes_through, -⟩ := maps.solve_reduces (by ext i; simp) !₂[3, 9]
    (show GuessIs 2 _ !₂[1, 1] from .inl rfl)
  obtain ⟨y, history, plain, solved⟩ := goes_through ⟨by simp, by simp [stepsAllowed]⟩
  have residual : (!₂[3, 9] : Space 2)
      - WithLp.toLp 2 (fun i => (!₂[1, 1] : Space 2) i * (!₂[1, 1] : Space 2) i) = !₂[2, 8] := by
    ext i
    fin_cases i <;> norm_num
  have squares : (WithLp.toLp 2 fun i => y i * y i : Space 2) = !₂[y 0 * y 0, y 1 * y 1] := by
    ext i
    fin_cases i <;> rfl
  rw [id_eq, residual] at plain
  rw [squares] at solved
  exact ⟨y, history, plain, solved⟩

end LinearSystem

end NewtonKrylov
