import NewtonKrylov.Proofs.LineSearch.Run

/-!
# Searches without a limit

A search whose steps are not limited goes on for as long as its samples tell it to, and need not
come to an end. `Backtracks` is its run from a pair of samples, with no bound on the number of
steps, and `Unlimited` the run of a whole search.

What can be run is a search that is given up when its patience is used up. It tells what the search
comes to by itself: this is its result for every patience that is large enough, whatever it would be
given up for. A search that has come to a position which it does not leave is given up always.
-/

namespace NewtonKrylov

namespace LineSearch

/-- Where a search is: its two latest samples, and whether its scales have only been halved. -/
structure Position (α : Type) where
  halved : Bool
  before : Sample α
  last : Sample α
  deriving DecidableEq

/-- What a search does at a position. -/
inductive Turn (α : Type) where
  | ends (result : Except Error (Outcome α))
  | goesTo (p : Position α)

/-- The position that is gone to. -/
def Turn.position? {α : Type} : Turn α → Option (Position α)
  | ends _ => none
  | goesTo p => some p

variable {α : Type} [CheckedScalar α]

section Turns

variable (norm : α → Except Error α) (r₀ : α) (tolerance : Tolerance α)

/-- One more trial, if the search goes on and nothing fails. -/
def Position.turn (p : Position α) : Turn α :=
  match goesOn r₀ (tolerance.bound p.halved) p.before p.last with
  | .error e => .ends (.error e)
  | .ok false => .ends (.ok ⟨[], p.last⟩)
  | .ok true =>
    match Cubic.minimizer? r₀ p.last p.before with
    | .error e => .ends (.error e)
    | .ok s =>
      let scale := Cubic.orHalf p.last s
      match norm scale with
      | .error e => .ends (.error e)
      | .ok r => .goesTo ⟨p.halved && s.isNone, p.last, ⟨scale, r⟩⟩

/-- The search from a position with `n` steps left. -/
def Position.backtrack (p : Position α) (n : ℕ) : Except Error (Outcome α) :=
  LineSearch.backtrack norm r₀ tolerance n p.halved p.before p.last

/-- A search without a limit from this position ends with this. -/
inductive Backtracks : Position α → Except Error (Outcome α) → Prop
  | stop {p : Position α} {result : Except Error (Outcome α)}
      (stops : p.turn norm r₀ tolerance = .ends result) : Backtracks p result
  | again {p q : Position α} {result : Except Error (Outcome α)}
      (goes_on : p.turn norm r₀ tolerance = .goesTo q) (rest : Backtracks q result) :
      Backtracks p (result.map (Outcome.after p.last))

/-- A search without a limit for its steps, from the norm `r₁` at scale one, ends with this. -/
inductive Unlimited (r₁ : α) : Except Error (Outcome α) → Prop
  | refused {e : Error} (fails : quadraticScale r₀ r₁ = .error e) : Unlimited r₁ (.error e)
  | undefined {s : α} {e : Error} (first : quadraticScale r₀ r₁ = .ok s)
      (fails : norm s = .error e) : Unlimited r₁ (.error e)
  | behindFirst {s r : α} {result : Except Error (Outcome α)}
      (first : quadraticScale r₀ r₁ = .ok s) (value : norm s = .ok r)
      (rest : Backtracks norm r₀ tolerance ⟨!Scalar.isFinite r₁, ⟨1, r₁⟩, ⟨s, r⟩⟩ result) :
      Unlimited r₁ result

end Turns

variable {norm : α → Except Error α} {r₀ r₁ : α} {tolerance : Tolerance α} {p q : Position α}
  {result : Except Error (Outcome α)} {n k : ℕ}

/-! ### One turn -/

/-- What a search with a step left comes to is settled by its turn. -/
lemma Position.backtrack_succ (p : Position α) (n : ℕ) :
    p.backtrack norm r₀ tolerance (n + 1) = match p.turn norm r₀ tolerance with
      | .ends result => result
      | .goesTo q => (q.backtrack norm r₀ tolerance n).map (Outcome.after p.last) := by
  unfold Position.backtrack Position.turn
  rw [LineSearch.backtrack]
  rcases goesOn r₀ (tolerance.bound p.halved) p.before p.last with e | _ | _
  · rfl
  · rfl
  rcases Cubic.minimizer? r₀ p.last p.before with e | s
  · rfl
  dsimp only [liftExcept]
  rcases value : norm (Cubic.orHalf p.last s) with e | r
  · simp [trial_of_error value, bind, Except.bind]
  · simp only [trial_of_ok value, pure_eq_ok, ok_bind, if_true]
    cases LineSearch.backtrack norm r₀ tolerance n (p.halved && s.isNone) p.last
      ⟨Cubic.orHalf p.last s, r⟩ <;> rfl

/-- A result that was reached with a step to spare, or by a failure. -/
def InTime (n : ℕ) (result : Except Error (Outcome α)) : Prop :=
  ∀ out, result = .ok out → out.earlier.length < n

omit [CheckedScalar α] in
lemma inTime_map (t : Sample α) :
    InTime (n + 1) (result.map (Outcome.after t)) ↔ InTime n result := by
  cases result <;> simp [InTime, Except.map, Outcome.after]

/-- A search ends before its next trial. -/
lemma Position.inTime_of_ends (stops : p.turn norm r₀ tolerance = .ends result) :
    InTime (n + 1) result := by
  unfold Position.turn at stops
  split at stops
  · cases stops
    exact nofun
  · cases stops
    rintro out ⟨⟩
    exact Nat.succ_pos n
  split at stops
  · cases stops
    exact nofun
  dsimp only at stops
  split at stops
  · cases stops
    exact nofun
  · cases stops

/-! ### Runs with a bound and without one -/

/-- A search that ends by itself is not disturbed by a bound that leaves it a step to spare. -/
lemma Backtracks.exists_backtrack_eq (run : Backtracks norm r₀ tolerance p result) :
    ∃ n, ∀ k, n ≤ k → p.backtrack norm r₀ tolerance k = result ∧ InTime k result := by
  -- By induction on the run. Each turn needs one step more, and one is to spare at the end.
  induction run with
  | @stop p result stops =>
    refine ⟨1, fun k le => ?_⟩
    obtain ⟨k, rfl⟩ := Nat.exists_eq_add_of_le' le
    rw [Position.backtrack_succ, stops]
    exact ⟨rfl, Position.inTime_of_ends stops⟩
  | again goes_on rest ih =>
    obtain ⟨n, same⟩ := ih
    refine ⟨n + 1, fun k le => ?_⟩
    obtain ⟨k, rfl⟩ := Nat.exists_eq_add_of_le' le
    obtain ⟨run, inTime⟩ := same (k + n) (Nat.le_add_left n k)
    change Position.backtrack norm r₀ tolerance _ (k + n + 1) = _ ∧ InTime (k + n + 1) _
    rw [Position.backtrack_succ, goes_on]
    dsimp only
    rw [run]
    exact ⟨rfl, (inTime_map _).mpr inTime⟩

/-- A search that ends in time would have ended by itself. -/
lemma Position.backtracks (inTime : InTime n (p.backtrack norm r₀ tolerance n)) :
    Backtracks norm r₀ tolerance p (p.backtrack norm r₀ tolerance n) := by
  -- At the end of its steps a search only fails in time, as it does in its next turn.
  induction n generalizing p with
  | zero =>
    unfold Position.backtrack LineSearch.backtrack at inTime ⊢
    rcases asked : goesOn r₀ (tolerance.bound p.halved) p.before p.last with e | b
    · refine .stop ?_
      rw [Position.turn, asked]
      rfl
    · rw [asked] at inTime
      exact absurd (inTime _ rfl) (Nat.not_lt_zero _)
  | succ n ih =>
    rw [Position.backtrack_succ] at inTime ⊢
    rcases turn : p.turn norm r₀ tolerance with result | q
    · exact .stop turn
    · rw [turn] at inTime
      exact .again turn (ih ((inTime_map _).mp inTime))

/-! ### Whole searches -/

/-- A search backtracks from its first trial, if there is one. -/
lemma search_eq_backtrack (n : ℕ) :
    search norm r₀ r₁ tolerance (.ok n) = (do
      let s ← quadraticScale r₀ r₁
      let first ← trial norm s
      Position.backtrack norm r₀ tolerance ⟨!Scalar.isFinite r₁, ⟨1, r₁⟩, first⟩ n) := by
  unfold search
  rcases quadraticScale r₀ r₁ with e | s
  · rfl
  change (trial norm s >>= _) = trial norm s >>= _
  refine bind_congr fun first => ?_
  unfold Position.backtrack
  rcases asked : goesOn r₀ (tolerance.bound !Scalar.isFinite r₁) ⟨1, r₁⟩ first with e | _ | _
  -- A search that does not go on asks twice whether it does, and has the same answer.
  · cases n <;> simp only [backtrack, liftExcept, asked] <;> rfl
  · cases n <;> simp only [backtrack, liftExcept, asked] <;> rfl
  · simp only [liftExcept, asked]
    rfl

/-- Whatever a search would be given up for, it comes to this: then it was not given up. -/
lemma searchWithin_endless_iff :
    (∀ e, searchWithin norm r₀ r₁ tolerance (.ok (.endless k e)) = result) ↔
      search norm r₀ r₁ tolerance (.ok k) = result ∧ InTime k result := by
  have given_up (e : Error) : searchWithin norm r₀ r₁ tolerance (.ok (.endless k e))
      = search norm r₀ r₁ tolerance (.ok k) >>= fun out =>
        if out.earlier.length < k then .ok out else .error e := rfl
  simp only [given_up]
  rcases search norm r₀ r₁ tolerance (.ok k) with e | out
  · constructor
    · intro same
      obtain rfl := same e
      exact ⟨rfl, nofun⟩
    · exact fun ⟨same, _⟩ _ => same
  · by_cases inTime : out.earlier.length < k
    · simp only [ok_bind, if_pos inTime]
      constructor
      · intro same
        -- A search that fails is not given up, so any error will do.
        obtain rfl := same .notSet
        exact ⟨rfl, by rintro _ ⟨⟩; exact inTime⟩
      · exact fun ⟨same, _⟩ _ => same
    · simp only [ok_bind, if_neg inTime]
      constructor
      · intro same
        -- A search that is given up comes to the error it was given, and there are two errors.
        cases (same .notSet).trans (same .overflow).symm
      · rintro ⟨rfl, spare⟩
        exact absurd (spare out rfl) inTime

/-- A run without a limit is what remains of runs that are given up when no patience is too short
for them. -/
theorem unlimited_iff :
    Unlimited norm r₀ tolerance r₁ result ↔ ∃ n, ∀ k, n ≤ k →
      ∀ e, searchWithin norm r₀ r₁ tolerance (.ok (.endless k e)) = result := by
  simp only [searchWithin_endless_iff, search_eq_backtrack]
  constructor
  · rintro (fails | ⟨first, fails⟩ | ⟨first, value, rest⟩)
    · exact ⟨0, fun k _ => by rw [fails]; exact ⟨rfl, nofun⟩⟩
    · exact ⟨0, fun k _ => by rw [first, ok_bind, trial_of_error fails]; exact ⟨rfl, nofun⟩⟩
    · obtain ⟨n, same⟩ := rest.exists_backtrack_eq
      exact ⟨n, fun k le => by rw [first, ok_bind, trial_of_ok value]; exact same k le⟩
  · rintro ⟨n, same⟩
    obtain ⟨run, inTime⟩ := same n le_rfl
    rcases first : quadraticScale r₀ r₁ with e | s
    · rw [first] at run
      subst run
      exact .refused first
    rw [first, ok_bind] at run
    rcases value : norm s with e | r
    · rw [trial_of_error value] at run
      subst run
      exact .undefined first value
    · rw [trial_of_ok value, ok_bind] at run
      subst run
      exact .behindFirst first value (Position.backtracks inTime)

/-! ### Searches that do not end -/

/-- Where a search is after some turns, if it takes so many. -/
def Position.after (norm : α → Except Error α) (r₀ : α) (tolerance : Tolerance α) :
    ℕ → Position α → Option (Position α)
  | 0, p => some p
  | n + 1, p => (p.turn norm r₀ tolerance).position? >>= Position.after norm r₀ tolerance n

/-- A search from this position takes any number of turns. -/
def Position.Endless (norm : α → Except Error α) (r₀ : α) (tolerance : Tolerance α)
    (p : Position α) : Prop :=
  ∀ k, ∃ q, Position.after norm r₀ tolerance k p = some q

namespace Position.Endless

lemma exists_goesTo (endless : p.Endless norm r₀ tolerance) :
    ∃ q, p.turn norm r₀ tolerance = .goesTo q ∧ q.Endless norm r₀ tolerance := by
  obtain ⟨q, first⟩ := endless 1
  rcases turn : p.turn norm r₀ tolerance with result | q
  · simp [Position.after, turn, Turn.position?] at first
  · refine ⟨q, rfl, fun k => ?_⟩
    simpa [Position.after, turn, Turn.position?] using endless (k + 1)

lemma cons (turn : p.turn norm r₀ tolerance = .goesTo q) (endless : q.Endless norm r₀ tolerance) :
    p.Endless norm r₀ tolerance := by
  rintro (_ | k)
  · exact ⟨p, rfl⟩
  · simpa [Position.after, turn, Turn.position?] using endless k

/-- A position that is not left. -/
lemma of_turn_eq_self (stays : q.turn norm r₀ tolerance = .goesTo q) :
    q.Endless norm r₀ tolerance := by
  intro k
  induction k with
  | zero => exact ⟨q, rfl⟩
  | succ k ih => simpa [Position.after, stays, Turn.position?] using ih

lemma of_after (reaches : Position.after norm r₀ tolerance n p = some q)
    (endless : q.Endless norm r₀ tolerance) : p.Endless norm r₀ tolerance := by
  induction n generalizing p with
  | zero =>
    cases reaches
    exact endless
  | succ n ih =>
    rcases turn : p.turn norm r₀ tolerance with result | p'
    · simp [Position.after, turn, Turn.position?] at reaches
    · rw [Position.after, turn] at reaches
      exact cons turn (ih reaches)

/-- All steps are used up, however many they are. -/
lemma exists_backtrack_eq (endless : p.Endless norm r₀ tolerance) (n : ℕ) :
    ∃ out, p.backtrack norm r₀ tolerance n = .ok out ∧ out.earlier.length = n := by
  obtain ⟨q, turn, later⟩ := endless.exists_goesTo
  induction n generalizing p q with
  | zero =>
    unfold Position.backtrack LineSearch.backtrack
    rcases asked : goesOn r₀ (tolerance.bound p.halved) p.before p.last with e | b
    · simp [Position.turn, asked] at turn
    · exact ⟨_, rfl, rfl⟩
  | succ n ih =>
    obtain ⟨q', turn', later'⟩ := later.exists_goesTo
    obtain ⟨out, run, length⟩ := ih later q' turn' later'
    refine ⟨out.after p.last, ?_, congrArg Nat.succ length⟩
    rw [Position.backtrack_succ, turn]
    dsimp only
    rw [run]
    rfl

end Position.Endless

/-- A search that goes on for ever uses up every patience. -/
theorem searchWithin_eq_error_of_endless {s r : α} (first : quadraticScale r₀ r₁ = .ok s)
    (value : norm s = .ok r)
    (endless : Position.Endless norm r₀ tolerance ⟨!Scalar.isFinite r₁, ⟨1, r₁⟩, ⟨s, r⟩⟩)
    (k : ℕ) (e : Error) :
    searchWithin norm r₀ r₁ tolerance (.ok (.endless k e)) = .error e := by
  obtain ⟨out, run, length⟩ := endless.exists_backtrack_eq k
  have search : search norm r₀ r₁ tolerance (.ok k) = .ok out := by
    rw [search_eq_backtrack, first, ok_bind, trial_of_ok value, ok_bind, run]
  have late : ¬ out.earlier.length < k := length.not_lt
  change (LineSearch.search norm r₀ r₁ tolerance (.ok k) >>= _) = _
  rw [search, ok_bind]
  exact if_neg late

/-- Does a search come to a position that it does not leave, in `n` turns behind its first trial? -/
def lingers [DecidableEq α] (norm : α → Except Error α) (r₀ r₁ : α) (tolerance : Tolerance α)
    (n : ℕ) : Bool :=
  match quadraticScale r₀ r₁ with
  | .error _ => false
  | .ok s =>
    match norm s with
    | .error _ => false
    | .ok r =>
      (Position.after norm r₀ tolerance n ⟨!Scalar.isFinite r₁, ⟨1, r₁⟩, ⟨s, r⟩⟩).any fun q =>
        (q.turn norm r₀ tolerance).position? = some q

/-- A search that lingers has no end. -/
theorem searchWithin_eq_error_of_lingers [DecidableEq α]
    (lingers : lingers norm r₀ r₁ tolerance n = true) (k : ℕ) (e : Error) :
    searchWithin norm r₀ r₁ tolerance (.ok (.endless k e)) = .error e := by
  unfold LineSearch.lingers at lingers
  rcases first : quadraticScale r₀ r₁ with e' | s
  · simp [first] at lingers
  rcases value : norm s with e' | r
  · simp [first, value] at lingers
  rw [first] at lingers
  dsimp only at lingers
  rw [value] at lingers
  obtain ⟨q, reaches, stays⟩ := (Option.any_eq_true _ _).mp lingers
  have turn : q.turn norm r₀ tolerance = .goesTo q := by
    rcases turn : q.turn norm r₀ tolerance with result | q'
    · simp [turn, Turn.position?] at stays
    · obtain rfl : q' = q := by simpa [turn, Turn.position?] using stays
      rfl
  have endless := Position.Endless.of_after reaches (.of_turn_eq_self turn)
  exact searchWithin_eq_error_of_endless first value endless k e

end LineSearch

end NewtonKrylov
