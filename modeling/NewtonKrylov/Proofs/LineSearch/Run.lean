import Mathlib.Data.List.Chain
import NewtonKrylov.LineSearch.Search
import NewtonKrylov.Proofs.Effects

/-!
# The run of a line search

Nothing here depends on the arithmetic. A search goes on from its two latest samples as long as the
latest is rejected and the scale has changed by more than the tolerance. `Searches` is its run from
there on as a relation, with one case for each way to go on or to end, and what holds of runs is
shown by induction on it. `search_run` is the rule for searches that do not fail: a relation between
consecutive samples that every cubic step from a rejected sample hands on holds along the whole run,
and the search ends for one of three reasons.
-/

namespace NewtonKrylov

namespace LineSearch

/-- The sample before the last one of a search that began at the sample `full`. -/
def Outcome.previous {α : Type} (o : Outcome α) (full : Sample α) : Sample α :=
  o.earlier.getLastD full

lemma Outcome.previous_cons {α : Type} (o : Outcome α) (before last : Sample α) :
    Outcome.previous ⟨last :: o.earlier, o.last⟩ before = o.previous last :=
  List.getLastD_cons ..

/-- What relates consecutive samples of a search relates the last two of them. -/
lemma Outcome.isChain_last {α : Type} {P : Sample α → Sample α → Prop} {o : Outcome α}
    {full : Sample α} (chain : (full :: o.trials).IsChain P) : P (o.previous full) o.last := by
  rw [Outcome.trials, ← List.cons_append, List.isChain_append] at chain
  exact chain.2.2 _ (by simp [previous, List.getLast?_cons]) _ rfl

variable {α : Type} [CheckedScalar α] {norm : α → Except Error α} {r₀ τ : α}

/-- A search goes on from these samples, if it has steps left. -/
def Continues (r₀ τ : α) (before last : Sample α) : Prop :=
  ¬ last.norm ≤ r₀ ∧ τ < Scalar.abs (before.scale - last.scale)

instance (before last : Sample α) : Decidable (Continues r₀ τ before last) :=
  inferInstanceAs (Decidable (_ ∧ _))

/-- The outcome of a search from the sample `full` that may take `n` cubic steps. -/
structure Ended (r₀ τ : α) (n : ℕ) (full : Sample α) (o : Outcome α) : Prop where
  rejected : ∀ t ∈ o.earlier, ¬ t.norm ≤ r₀
  steps_le : o.earlier.length ≤ n
  /-- A search stops early only where it does not go on. -/
  steps_eq : Continues r₀ τ (o.previous full) o.last → o.earlier.length = n

lemma goesOn_ok (before last : Sample α) :
    goesOn r₀ (.ok τ) before last = .ok (decide (Continues r₀ τ before last)) := by
  unfold goesOn Continues
  by_cases small : last.norm ≤ r₀
  · simp [small]
  · simp [small]

/-! ### The equations of a search

They are the same in every monad in which the norm is evaluated. -/

section Equations

variable {m : Type → Type} [Monad m] [LawfulMonad m] [MonadExceptOf Error m]
  {evaluate : α → m α} {before last : Sample α} {n : ℕ}

/-- An outcome, with one more trial before. -/
def Outcome.after {α : Type} (t : Sample α) (o : Outcome α) : Outcome α := ⟨t :: o.earlier, o.last⟩

lemma backtrack_stop (ends : Continues r₀ τ before last → n = 0) (halved : Bool) :
    backtrack evaluate r₀ (.ofNumber τ) n halved before last = pure ⟨[], last⟩ := by
  cases n with
  | zero => simp [backtrack, goesOn_ok, liftExcept]
  | succ n =>
    have stops : ¬ Continues r₀ τ before last := fun continues => nomatch ends continues
    simp [backtrack, goesOn_ok, stops, liftExcept]

lemma backtrack_succ (continues : Continues r₀ τ before last) (n : ℕ) (halved : Bool) :
    backtrack evaluate r₀ (.ofNumber τ) (n + 1) halved before last = do
      let s ← liftExcept (Cubic.minimizer? r₀ last before)
      let next ← trial evaluate (Cubic.orHalf last s)
      let out ← backtrack evaluate r₀ (.ofNumber τ) n (halved && s.isNone) last next
      return out.after last := by
  simp [backtrack, goesOn_ok, continues, liftExcept, Outcome.after]

/-- One more cubic step. -/
lemma backtrack_next (continues : Continues r₀ τ before last) {o : Option α}
    (found : Cubic.minimizer? r₀ last before = .ok o) (n : ℕ) (halved : Bool) :
    backtrack evaluate r₀ (.ofNumber τ) (n + 1) halved before last
      = trial evaluate (Cubic.orHalf last o) >>= fun next =>
        Outcome.after last <$> backtrack evaluate r₀ (.ofNumber τ) n (halved && o.isNone) last next
    := by
  simp only [backtrack_succ continues, found, liftExcept, pure_bind, bind_pure_comp]

/-- A search backtracks from its first trial. It may have to stop at once. -/
lemma search_eq (r₁ : α) (n : ℕ) :
    search evaluate r₀ r₁ (.ofNumber τ) (.ok n) = (do
      let s ← liftExcept (quadraticScale r₀ r₁)
      let first ← trial evaluate s
      backtrack evaluate r₀ (.ofNumber τ) n (!Scalar.isFinite r₁) ⟨1, r₁⟩ first) := by
  refine bind_congr fun s => bind_congr fun first => ?_
  by_cases continues : Continues r₀ τ ⟨1, r₁⟩ first
  · simp [goesOn_ok, continues, liftExcept]
  · simp [goesOn_ok, continues, liftExcept, backtrack_stop]

/-- The first trial. -/
lemma search_next {r₁ s : α} (first : quadraticScale r₀ r₁ = .ok s) (n : ℕ) :
    search evaluate r₀ r₁ (.ofNumber τ) (.ok n)
      = trial evaluate s
        >>= backtrack evaluate r₀ (.ofNumber τ) n (!Scalar.isFinite r₁) ⟨1, r₁⟩ := by
  rw [search_eq, first]
  exact pure_bind ..

end Equations

section Trial

omit [CheckedScalar α]

variable {s r : α} {e : Error}

lemma trial_of_ok (value : norm s = .ok r) : trial norm s = .ok ⟨s, r⟩ := by
  rw [trial, value]
  rfl

lemma trial_of_error (failed : norm s = .error e) : trial norm s = .error e := by
  rw [trial, failed]
  rfl

end Trial

/-! ### Backtracking -/

section Backtrack

variable {n : ℕ} {before last : Sample α}

/-- A search from the samples `before` and `last` that may take `n` cubic steps: the scales at which
it evaluates the norm, and what it comes to. -/
inductive Searches (norm : α → Except Error α) (r₀ τ : α) :
    ℕ → Sample α → Sample α → List α → Except Error (Outcome α) → Prop
  | stop {n : ℕ} {before last : Sample α} (ends : Continues r₀ τ before last → n = 0) :
      Searches norm r₀ τ n before last [] (.ok ⟨[], last⟩)
  | refused {n : ℕ} {before last : Sample α} {e : Error} (continues : Continues r₀ τ before last)
      (failed : Cubic.nextScale r₀ last before = .error e) :
      Searches norm r₀ τ (n + 1) before last [] (.error e)
  | undefined {n : ℕ} {before last : Sample α} {s : α} {e : Error}
      (continues : Continues r₀ τ before last) (next : Cubic.nextScale r₀ last before = .ok s)
      (failed : norm s = .error e) : Searches norm r₀ τ (n + 1) before last [s] (.error e)
  | step {n : ℕ} {before last : Sample α} {s r : α} {scales : List α}
      {result : Except Error (Outcome α)} (continues : Continues r₀ τ before last)
      (next : Cubic.nextScale r₀ last before = .ok s) (value : norm s = .ok r)
      (rest : Searches norm r₀ τ n last ⟨s, r⟩ scales result) :
      Searches norm r₀ τ (n + 1) before last (s :: scales) (result.map (Outcome.after last))

lemma backtrack_searches (norm : α → Except Error α) (r₀ τ : α) (n : ℕ) (halved : Bool)
    (before last : Sample α) : ∃ scales,
    Searches norm r₀ τ n before last scales
      (backtrack norm r₀ (.ofNumber τ) n halved before last) := by
  -- By induction on the cubic steps that are left.
  induction n generalizing halved before last with
  | zero =>
    refine ⟨[], ?_⟩
    rw [backtrack_stop fun _ => rfl]
    exact .stop fun _ => rfl
  | succ n ih =>
    by_cases continues : Continues r₀ τ before last
    · cases found : Cubic.minimizer? r₀ last before with
      | error e =>
        rw [backtrack_succ continues, found]
        exact ⟨[], .refused continues (congrArg (Except.map _) found)⟩
      | ok o =>
        have next : Cubic.nextScale r₀ last before = .ok (Cubic.orHalf last o) :=
          congrArg (Except.map _) found
        rw [backtrack_next continues found]
        cases value : norm (Cubic.orHalf last o) with
        | error e =>
          rw [trial_of_error value]
          exact ⟨_, .undefined continues next value⟩
        | ok r =>
          rw [trial_of_ok value]
          obtain ⟨scales, searches⟩ := ih (halved && o.isNone) last ⟨Cubic.orHalf last o, r⟩
          exact ⟨_, .step continues next value searches⟩
    · have ends : Continues r₀ τ before last → n + 1 = 0 := fun goes_on => absurd goes_on continues
      refine ⟨[], ?_⟩
      rw [backtrack_stop ends]
      exact .stop ends

variable {scales : List α} {result : Except Error (Outcome α)}

lemma Searches.ended (searches : Searches norm r₀ τ n before last scales result) {out : Outcome α}
    (ends : result = .ok out) : Ended r₀ τ n before out := by
  induction searches generalizing out with
  | stop idle =>
    cases ends
    exact ⟨by simp, Nat.zero_le _, fun goes_on => (idle goes_on).symm⟩
  | refused => cases ends
  | undefined => cases ends
  | step continues _ _ _ ih =>
    obtain ⟨later, rest, rfl⟩ := map_eq_ok.mp ends
    obtain ⟨rejected, steps_le, steps_eq⟩ := ih rest
    refine ⟨List.forall_mem_cons.mpr ⟨continues.1, rejected⟩, Nat.succ_le_succ steps_le, ?_⟩
    intro goes_on
    rw [Outcome.after, Outcome.previous_cons] at goes_on
    exact congrArg Nat.succ (steps_eq goes_on)

/-- What every cubic step from a rejected sample hands on holds along the whole run. -/
lemma Searches.exists_isChain (searches : Searches norm r₀ τ n before last scales result)
    {P : Sample α → Sample α → Prop}
    (step : ∀ before last, P before last → Continues r₀ τ before last →
      ∃ s r, Cubic.nextScale r₀ last before = .ok s ∧ norm s = .ok r ∧ P last ⟨s, r⟩)
    (start : P before last) : ∃ out, result = .ok out ∧ (before :: out.trials).IsChain P := by
  induction searches with
  | stop => exact ⟨_, rfl, .cons_cons start (.singleton _)⟩
  | refused continues failed =>
    obtain ⟨_, _, next, -⟩ := step _ _ start continues
    cases failed.symm.trans next
  | undefined continues next failed =>
    obtain ⟨_, _, next', value, -⟩ := step _ _ start continues
    cases next.symm.trans next'
    cases failed.symm.trans value
  | step continues next value _ ih =>
    obtain ⟨_, _, next', value', related⟩ := step _ _ start continues
    cases next.symm.trans next'
    cases value.symm.trans value'
    obtain ⟨out, rfl, chain⟩ := ih related
    exact ⟨_, rfl, chain.cons_cons start⟩

end Backtrack

/-- The rule for a search. Its runs end because the residual norm is small enough, the scale no
longer changes, or all cubic steps are used up. -/
theorem search_run {P : Sample α → Sample α → Prop}
    (step : ∀ before last, P before last → Continues r₀ τ before last →
      ∃ s r, Cubic.nextScale r₀ last before = .ok s ∧ norm s = .ok r ∧ P last ⟨s, r⟩)
    {r₁ s r : α} (first : quadraticScale r₀ r₁ = .ok s) (value : norm s = .ok r)
    (start : P ⟨1, r₁⟩ ⟨s, r⟩) (n : ℕ) :
    ∃ out, search norm r₀ r₁ (.ofNumber τ) (.ok n) = .ok out ∧
      (⟨1, r₁⟩ :: out.trials).IsChain P ∧ Ended r₀ τ n ⟨1, r₁⟩ out := by
  rw [search_next first, trial_of_ok value]
  obtain ⟨scales, searches⟩ :=
    backtrack_searches norm r₀ τ n (!Scalar.isFinite r₁) ⟨1, r₁⟩ ⟨s, r⟩
  obtain ⟨out, run, chain⟩ := searches.exists_isChain step start
  exact ⟨out, run, chain, searches.ended run⟩

/-! ### The norm of the last trial

The norm need not be defined everywhere here, and the tolerance need not be a number. -/

lemma backtrack_last {tolerance : Tolerance α} (n : ℕ) {halved : Bool} {before last : Sample α}
    (value : norm last.scale = .ok last.norm) {out : Outcome α}
    (run : backtrack norm r₀ tolerance n halved before last = .ok out) :
    norm out.last.scale = .ok out.last.norm := by
  induction n generalizing halved before last out with
  | zero =>
    obtain ⟨_, _, ⟨⟩⟩ := bind_eq_ok.mp run
    exact value
  | succ n ih =>
    obtain ⟨goes_on, _, run⟩ := bind_eq_ok.mp run
    split_ifs at run
    · obtain ⟨s, _, run⟩ := bind_eq_ok.mp run
      obtain ⟨next, evaluated, run⟩ := bind_eq_ok.mp run
      obtain ⟨rest, further, ⟨⟩⟩ := bind_eq_ok.mp run
      obtain ⟨r, at_next, ⟨⟩⟩ := bind_eq_ok.mp evaluated
      exact (ih at_next further :)
    · cases run
      exact value

/-- A search returns the norm at the scale that it returns. -/
theorem search_last {tolerance : Tolerance α} {steps : Setting ℕ} {r₁ : α} {out : Outcome α}
    (run : search norm r₀ r₁ tolerance steps = .ok out) :
    norm out.last.scale = .ok out.last.norm := by
  obtain ⟨s, _, run⟩ := bind_eq_ok.mp run
  obtain ⟨first, evaluated, run⟩ := bind_eq_ok.mp run
  obtain ⟨r, at_first, ⟨⟩⟩ := bind_eq_ok.mp evaluated
  obtain ⟨goes_on, _, run⟩ := bind_eq_ok.mp run
  split_ifs at run
  · obtain ⟨n, _, run⟩ := bind_eq_ok.mp run
    exact backtrack_last n at_first run
  · cases run
    exact at_first

/-! ### Limits -/

/-- What a search under a limit returns is returned by a search of as many steps as there is room
for. -/
lemma search_of_searchWithin {tolerance : Tolerance α} {limit : Setting Limit} {r₁ : α}
    {out : Outcome α} (run : searchWithin norm r₀ r₁ tolerance limit = .ok out) :
    search norm r₀ r₁ tolerance (limit.map Limit.room) = .ok out := by
  obtain ⟨ended, search, run⟩ := bind_eq_ok.mp run
  have same : ended = out := by
    split at run
    · split_ifs at run
      exact Except.ok.inj run
    · exact Except.ok.inj run
  rw [← same, search]

end LineSearch

end NewtonKrylov
