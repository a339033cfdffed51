import NewtonKrylov.Proofs.LineSearch.Run

/-!
# What a line search evaluates

A search evaluates the residual norm once for each of its trials and nowhere else, whatever the
norm is and in any arithmetic. `noting` lets a function keep account of the numbers at which it is
evaluated. A search that is run with it comes to the same as without, and it has noted the scales of
its run in order.
-/

namespace NewtonKrylov

variable {α : Type} [CheckedScalar α]

/-! ### Refusals -/

variable (α) in
/-- The arithmetic refuses a quotient or a square with this error. -/
def Refuses (e : Error) : Prop :=
  (∃ a b : α, CheckedScalar.quotient a b = .error e) ∨ ∃ a : α, CheckedScalar.square a = .error e

section Refuses

variable {a b c : α} {e : Error}

lemma Refuses.quotient (refused : CheckedScalar.quotient a b = .error e) : Refuses α e :=
  .inl ⟨a, b, refused⟩

lemma Refuses.square (refused : CheckedScalar.square a = .error e) : Refuses α e :=
  .inr ⟨a, refused⟩

lemma Quadratic.refuses_of_roots (failed : roots a b c = .error e) : Refuses α e := by
  unfold roots at failed
  split_ifs at failed
  · cases failed
  · obtain refused | ⟨_, _, ⟨⟩⟩ := bind_eq_error.mp failed
    exact .quotient refused
  · obtain refused | ⟨square, -, failed⟩ := bind_eq_error.mp failed
    · exact .square refused
    dsimp only at failed
    split_ifs at failed
    · cases failed
    · cases failed
    · obtain refused | ⟨_, _, failed⟩ := bind_eq_error.mp failed
      · exact .quotient refused
      · obtain refused | ⟨_, _, ⟨⟩⟩ := bind_eq_error.mp failed
        exact .quotient refused

lemma Cubic.refuses_of_nextScale {r₀ : α} {later earlier : Sample α}
    (failed : nextScale r₀ later earlier = .error e) : Refuses α e := by
  obtain refused | ⟨sqβ, -, failed⟩ := bind_eq_error.mp (map_eq_error.mp failed)
  · exact .square refused
  obtain refused | ⟨sqγ, -, failed⟩ := bind_eq_error.mp failed
  · exact .square refused
  dsimp only at failed
  split_ifs at failed
  · cases failed
  obtain refused | ⟨b, -, failed⟩ := bind_eq_error.mp failed
  · exact .quotient refused
  obtain refused | ⟨a, -, failed⟩ := bind_eq_error.mp failed
  · exact .quotient refused
  obtain failed | ⟨_, _, ⟨⟩⟩ := bind_eq_error.mp failed
  obtain failed | ⟨_, _, ⟨⟩⟩ := bind_eq_error.mp failed
  exact Quadratic.refuses_of_roots failed

lemma LineSearch.refuses_of_quadraticScale {r₀ r₁ : α} (failed : quadraticScale r₀ r₁ = .error e) :
    Refuses α e := by
  unfold quadraticScale at failed
  split_ifs at failed
  exact .quotient failed

end Refuses

namespace LineSearch

/-! ### Noting where a function is evaluated -/

omit [CheckedScalar α] in
/-- The function `φ`, which in addition notes the numbers at which it is evaluated. -/
def noting (φ : α → Except Error α) (s : α) : ExceptT Error (StateM (List α)) α := do
  modify (· ++ [s])
  φ s

variable {φ : α → Except Error α} {r₀ τ : α}

section Noting

omit [CheckedScalar α]

variable {s r : α} {e : Error}

lemma trial_noting_of_ok (value : φ s = .ok r) (noted : List α) :
    (trial (noting φ) s).run noted = (.ok ⟨s, r⟩, noted ++ [s]) := by
  unfold trial noting
  rw [value]
  rfl

lemma trial_noting_of_error (failed : φ s = .error e) (noted : List α) :
    (trial (noting φ) s).run noted = (.error e, noted ++ [s]) := by
  unfold trial noting
  rw [failed]
  rfl

end Noting

/-! ### What holds of every run -/

section Searches

variable {n : ℕ} {before last : Sample α} {scales : List α} {result : Except Error (Outcome α)}

/-- A search comes to the same if the scales are noted, and what it notes are those of its run. -/
lemma Searches.run_noting (searches : Searches φ r₀ τ n before last scales result) (halved : Bool)
    (noted : List α) :
    (backtrack (noting φ) r₀ (.ofNumber τ) n halved before last).run noted
      = (result, noted ++ scales) := by
  -- By induction on the run: one case for each way in which a turn of the loop ends.
  induction searches generalizing halved noted with
  | stop ends =>
    rw [backtrack_stop ends, List.append_nil]
    rfl
  | refused continues failed =>
    rw [backtrack_succ continues, map_eq_error.mp failed, List.append_nil]
    rfl
  | undefined continues next failed =>
    obtain ⟨o, found, rfl⟩ := map_eq_ok.mp next
    rw [backtrack_next continues found]
    exact run_bind_of_error (trial_noting_of_error failed noted)
  | step continues next value _ ih =>
    obtain ⟨o, found, rfl⟩ := map_eq_ok.mp next
    rw [backtrack_next continues found, run_bind_of_ok (trial_noting_of_ok value noted), run_map,
      ih, List.append_assoc]
    rfl

lemma Searches.length_le (searches : Searches φ r₀ τ n before last scales result) :
    scales.length ≤ n := by
  induction searches with
  | stop => exact Nat.zero_le _
  | refused => exact Nat.zero_le _
  | undefined => exact Nat.succ_le_succ (Nat.zero_le _)
  | step _ _ _ _ ih => exact Nat.succ_le_succ ih

/-- The only failures are those of the function and of the arithmetic. -/
lemma Searches.failure (searches : Searches φ r₀ τ n before last scales result) {e : Error}
    (failed : result = .error e) : (∃ s ∈ scales, φ s = .error e) ∨ Refuses α e := by
  induction searches with
  | stop => cases failed
  | refused _ refused =>
    cases failed
    exact .inr (Cubic.refuses_of_nextScale refused)
  | undefined _ _ undefined =>
    cases failed
    exact .inl ⟨_, List.mem_singleton_self _, undefined⟩
  | step _ _ _ _ ih =>
    refine (ih (map_eq_error.mp failed)).imp_left ?_
    rintro ⟨s, mem, undefined⟩
    exact ⟨s, List.mem_cons_of_mem _ mem, undefined⟩

variable {out : Outcome α}

lemma Searches.scales_eq (searches : Searches φ r₀ τ n before last scales result)
    (ends : result = .ok out) : last.scale :: scales = out.trials.map Sample.scale := by
  induction searches generalizing out with
  | stop =>
    cases ends
    rfl
  | refused => cases ends
  | undefined => cases ends
  | step _ _ _ _ ih =>
    obtain ⟨later, rest, rfl⟩ := map_eq_ok.mp ends
    exact congrArg _ (ih rest)

lemma Searches.norms_eq (searches : Searches φ r₀ τ n before last scales result)
    (value : φ last.scale = .ok last.norm) (ends : result = .ok out) :
    ∀ t ∈ out.trials, φ t.scale = .ok t.norm := by
  induction searches generalizing out with
  | stop =>
    cases ends
    exact List.forall_mem_singleton.mpr value
  | refused => cases ends
  | undefined => cases ends
  | step _ _ at_next _ ih =>
    obtain ⟨later, rest, rfl⟩ := map_eq_ok.mp ends
    exact List.forall_mem_cons.mpr ⟨value, ih at_next rest⟩

end Searches

/-- A search evaluates the norm at the scales of its trials in order, once each, and fails only with
the norm or the arithmetic. All trials but the last are rejected, and the last is so only if all
cubic steps are used up or the scale has changed by no more than the tolerance. -/
theorem search_evaluations (φ : α → Except Error α) (r₀ r₁ τ : α) (n : ℕ) : ∃ scales,
    (search (noting φ) r₀ r₁ (.ofNumber τ) (.ok n)).run []
        = (search φ r₀ r₁ (.ofNumber τ) (.ok n), scales) ∧
      scales.length ≤ n + 1 ∧
      (∀ e, search φ r₀ r₁ (.ofNumber τ) (.ok n) = .error e →
        (∃ s ∈ scales, φ s = .error e) ∨ Refuses α e) ∧
      ∀ out, search φ r₀ r₁ (.ofNumber τ) (.ok n) = .ok out →
        scales = out.trials.map Sample.scale ∧
        (∀ t ∈ out.trials, φ t.scale = .ok t.norm) ∧
        (∀ t ∈ out.earlier, ¬ t.norm ≤ r₀) ∧
        (¬ out.last.norm ≤ r₀ → out.earlier.length = n ∨
          ¬ τ < Scalar.abs ((out.previous ⟨1, r₁⟩).scale - out.last.scale)) := by
  -- The first trial is not part of the loop, and the search may fail in front of it or at it.
  cases first : quadraticScale r₀ r₁ with
  | error e =>
    rw [search_eq, search_eq, first]
    refine ⟨[], rfl, Nat.zero_le _, ?_, fun out ends => nomatch ends⟩
    rintro _ ⟨⟩
    exact .inr (refuses_of_quadraticScale first)
  | ok s =>
    cases value : φ s with
    | error e =>
      have tried := trial_noting_of_error value []
      rw [search_next first, search_next first, trial_of_error value]
      refine ⟨[s], run_bind_of_error tried, Nat.le_add_left 1 n, ?_, fun out ends => nomatch ends⟩
      rintro _ ⟨⟩
      exact .inl ⟨s, List.mem_singleton_self s, value⟩
    | ok r =>
      have tried := trial_noting_of_ok value []
      rw [search_next first, search_next first, trial_of_ok value]
      obtain ⟨scales, searches⟩ :=
        backtrack_searches φ r₀ τ n (!Scalar.isFinite r₁) ⟨1, r₁⟩ ⟨s, r⟩
      have run := (run_bind_of_ok tried).trans (searches.run_noting (!Scalar.isFinite r₁) [s])
      refine ⟨s :: scales, run, Nat.succ_le_succ searches.length_le, fun e failed => ?_,
        fun out ends => ?_⟩
      · refine (searches.failure failed).imp_left ?_
        rintro ⟨t, mem, undefined⟩
        exact ⟨t, List.mem_cons_of_mem s mem, undefined⟩
      · have ended := searches.ended ends
        refine ⟨searches.scales_eq ends, searches.norms_eq value ends, ended.rejected, ?_⟩
        intro rejected
        by_contra goes_on
        rw [not_or, not_not] at goes_on
        exact goes_on.1 (ended.steps_eq ⟨rejected, goes_on.2⟩)

/-- A norm that is nowhere a number. -/
def undefinedNorm (_ : Float) : Except Error Float := .ok (0 / 0)

/-- The scale is halved twice, and no norm is a number. -/
theorem search_evaluations_undefinedNorm : ∃ out scales,
    (search (noting undefinedNorm) 1 (0 / 0) (.ofNumber 0) (.ok 1)).run [] = (.ok out, scales) ∧
      scales = out.trials.map Sample.scale ∧ ¬ out.last.norm ≤ 1 ∧
      (out.earlier.length = 1 ∨
        ¬ 0 < Scalar.abs ((out.previous ⟨1, 0 / 0⟩).scale - out.last.scale)) := by
  have rejected : (match search undefinedNorm 1 (0 / 0) (.ofNumber 0) (.ok 1) with
      | .ok out => decide (out.last.norm ≤ 1)
      | .error _ => true) = false := by
    decide +kernel
  obtain ⟨scales, run, -, -, ends⟩ := search_evaluations undefinedNorm 1 (0 / 0) 0 1
  cases searched : search undefinedNorm 1 (0 / 0) (.ofNumber 0) (.ok 1) with
  | error e => simp [searched] at rejected
  | ok out =>
    rw [searched] at rejected run
    obtain ⟨noted, -, -, used⟩ := ends out searched
    have above : ¬ out.last.norm ≤ 1 := of_decide_eq_false rejected
    exact ⟨out, scales, run, noted, above, used above⟩

end LineSearch

end NewtonKrylov
