import NewtonKrylov.Proofs.Guard
import NewtonKrylov.Proofs.LineSearch.Scale
import NewtonKrylov.Proofs.Newton.Affine
import NewtonKrylov.Proofs.Newton.Bookkeeping

/-!
# States inside the bounds

In exact arithmetic an iteration whose guard is made of bounds begins inside them. A step that the
guard has brought inside stays there however a line search shortens it, since the states inside are
a convex set. But the guard shortens a step a limited number of times only, and hands on the last of
its steps whether or not it leads inside. From a state on a bound a step that leads out does so at
every length, so this is where states leave the bounds, and nowhere else.
-/

namespace NewtonKrylov

namespace Bounds

/-- All the steps that the guard may try from `y` lead out of the bounds, and `z` is a state outside
on the way of the last of them. -/
def Escapes (g : Bounds ℝ) (y z : Tensor ℝ) : Prop :=
  ∃ (p : Tensor ℝ) (c : ℝ), p.shape = y.shape ∧
    (∀ j ≤ g.maxRelax, ¬ g.Allows y (p.smul (g.relax ^ j))) ∧ 0 < c ∧ c ≤ 1 ∧
    Tensor.combine (· - ·) y (p.smul (c * g.relax ^ g.maxRelax)) = .ok z ∧ ¬ g.Contains z

/-- States that begin inside the bounds. One that comes after a state inside is inside as well,
unless it escapes. -/
structure StaysInside (g : Bounds ℝ) (states : List (Tensor ℝ)) : Prop where
  first : ∀ y ∈ states.head?, g.Contains y
  next : states.IsChain fun y z => g.Contains y → g.Contains z ∨ g.Escapes y z

namespace StaysInside

variable {g : Bounds ℝ} {states : List (Tensor ℝ)} {y z : Tensor ℝ}

lemma nil : g.StaysInside [] := ⟨by simp, .nil⟩

lemma singleton (contains : g.Contains y) : g.StaysInside [y] :=
  ⟨by simpa using contains, .singleton y⟩

lemma concat (stays : g.StaysInside states) (last : states.getLast? = some y)
    (follows : g.Contains y → g.Contains z ∨ g.Escapes y z) : g.StaysInside (states ++ [z]) where
  first := by
    obtain ⟨init, rfl⟩ := List.getLast?_eq_some_iff.mp last
    intro x at_head
    rw [List.head?_append_of_ne_nil _ (by simp)] at at_head
    exact stays.first x at_head
  next := by
    rw [List.isChain_append]
    refine ⟨stays.next, .singleton z, ?_⟩
    intro y' at_last z' at_head
    rw [last, Option.mem_some] at at_last
    rw [List.head?_cons, Option.mem_some] at at_head
    rwa [← at_last, ← at_head]

/-- Without an escape no state is outside. -/
theorem contains (stays : g.StaysInside states)
    (never : states.IsChain fun y z => ¬ g.Escapes y z) : ∀ y ∈ states, g.Contains y := by
  induction states with
  | nil => simp
  | cons y states ih =>
    have here : g.Contains y := stays.first y rfl
    have rest : g.StaysInside states := by
      refine ⟨fun z at_head => ?_, stays.next.tail⟩
      cases states with
      | nil => simp at at_head
      | cons w states =>
        cases at_head
        exact (stays.next.rel here).resolve_right never.rel
    exact List.forall_mem_cons.mpr ⟨here, ih rest never.tail⟩

end StaysInside

end Bounds

namespace Solver

open Bounds Vec

variable {n : ℕ} {F : NonlinearSystem ℝ} {g : Bounds ℝ} {low high : Option (Vec ℝ)} {s : Solver ℝ}
  {x : Tensor ℝ}

/-! ### One step -/

/-- A part of a step that the guard has shortened stays inside the bounds, or escapes. -/
lemma contains_or_escapes (limits : g.HasLimits n low high) {y z p dx : Tensor ℝ}
    (y_shape : y.shape = [n]) (p_shape : p.shape = y.shape)
    (guarded : g.shorten y g.maxRelax p = .ok dx) {c : ℝ} (positive : 0 < c) (le_one : c ≤ 1)
    (moved : Tensor.combine (· - ·) y (dx.smul c) = .ok z) (contains : g.Contains y) :
    g.Contains z ∨ g.Escapes y z := by
  obtain ⟨j, le, rfl, outside, inside⟩ := exists_shortened guarded
  have shape : (p.smul (g.relax ^ j)).shape = [n] := p_shape.trans y_shape
  -- The last relaxation is not tested. If it leads out, so did all before it, and the state
  -- escapes.
  by_cases allows : g.Allows y (p.smul (g.relax ^ j))
  · exact .inl (limits.contains_of_allows y_shape shape contains allows positive.le le_one moved)
  · obtain rfl : j = g.maxRelax := le.eq_of_not_lt fun lt => allows (inside lt)
    by_cases back : g.Contains z
    · exact .inl back
    · refine .inr ⟨p, c, p_shape, fun i le => ?_, positive, le_one, ?_, back⟩
      · rcases le.lt_or_eq with lt | rfl
        · exact outside i lt
        · exact allows
      · rwa [Tensor.smul_smul] at moved

lemma shape_of_shorten {y p dx : Tensor ℝ} (p_shape : p.shape = y.shape) {m : ℕ}
    (guarded : g.shorten y m p = .ok dx) : dx.shape = y.shape := by
  obtain ⟨j, -, rfl, -⟩ := exists_shortened guarded
  exact p_shape

/-- A step that is taken has the shape of the state before it, and stays inside or escapes. -/
lemma Attempted.stays (limits : g.HasLimits n low high) (guard : F.guard = g.guard)
    {settings : Settings ℝ} {y z : Tensor ℝ} (shape : y.shape = [n]) {norm : ℝ} (nonneg : 0 ≤ norm)
    {out : StepOutcome ℝ} (attempted : Attempted F settings y norm out)
    (taken : out.state = some z) :
    z.shape = [n] ∧ (g.Contains y → g.Contains z ∨ g.Escapes y z) := by
  have shape_of_moved {dx : Tensor ℝ} (same : dx.shape = y.shape)
      (moved : Tensor.combine (· - ·) y dx = .ok z) : z.shape = [n] := by
    rw [Tensor.combine_of_shape_eq _ same.symm] at moved
    cases moved
    exact shape
  obtain ⟨p, dx, fullNorm, p_shape, guarded, -, settled⟩ := attempted
  rw [guard] at guarded
  cases settled with
  | full _ moved =>
    cases taken
    refine ⟨shape_of_moved (shape_of_shorten p_shape guarded) moved, fun contains => ?_⟩
    exact contains_or_escapes limits shape p_shape guarded one_pos le_rfl
      (by rwa [Tensor.smul_one]) contains
  | searched increased search _ positive moved =>
    cases taken
    -- A trial scale is a part of the guarded step, so the segment between two states inside is
    -- enough.
    have lt_one := LineSearch.search_scale_lt_one nonneg increased
      (LineSearch.search_of_searchWithin search)
    have same := shape_of_shorten p_shape guarded
    refine ⟨shape_of_moved (by exact same) moved, fun contains => ?_⟩
    exact contains_or_escapes limits shape p_shape guarded positive lt_one.le moved contains
  | rejected => cases taken

/-! ### A whole run -/

/-- Before a pass all recorded states stay inside, and the present one is the last of them. -/
structure Bounded (g : Bounds ℝ) (n : ℕ) (it : Iteration ℝ) (t : Solver ℝ) : Prop where
  shape : it.state.shape = [n]
  stays : g.StaysInside (recordedStates t.log)
  last : (recordedStates t.log).getLast? = some it.state
  visited : visitedStates t.log = recordedStates t.log

/-- After the last pass this holds of all states of the run, those included that were not
recorded. -/
structure BoundedAtEnd (g : Bounds ℝ) (it : Iteration ℝ) (t : Solver ℝ) : Prop where
  recorded : g.StaysInside (recordedStates t.log)
  stays : g.StaysInside (visitedStates t.log)
  last : (visitedStates t.log).getLast? = some it.state

namespace Bounded

variable {t u : Solver ℝ} {it it' : Iteration ℝ}

lemma atEnd (bounded : Bounded g n it t) : BoundedAtEnd g it t :=
  ⟨bounded.stays, bounded.visited ▸ bounded.stays, bounded.visited ▸ bounded.last⟩

/-- What is looked for from a state inside stays inside or escapes. -/
lemma follows (limits : g.HasLimits n low high) (guard : F.guard = g.guard)
    (bounded : Bounded g n it t) {pre : HookAnswer} {out : StepOutcome ℝ} {y : Tensor ℝ}
    (attempts : Attempts F t it pre out u) (taken : out.state = some y) :
    y.shape = [n] ∧ g.StaysInside (recordedStates t.log ++ [y]) := by
  obtain ⟨r, -, attempted⟩ := attempts.attempted
  obtain ⟨shape, follows⟩ :=
    attempted.stays limits guard bounded.shape (Vec.norm_nonneg r.entries) taken
  exact ⟨shape, bounded.stays.concat bounded.last follows⟩

lemma pass {again : Bool} (limits : g.HasLimits n low high) (guard : F.guard = g.guard)
    (bounded : Bounded g n it t) (passed : Passed F t it (it', again) u) :
    BoundedAtEnd g it' u ∧ (again = true → Bounded g n it' u) := by
  -- The states of a pass are the present one and at most one behind it.
  cases passed with
  | exitBefore => exact ⟨⟨by simpa using bounded.stays, by simpa using bounded.atEnd.stays,
      by simpa using bounded.atEnd.last⟩, nofun⟩
  | rejected attempts none =>
    have log : visitedStates u.log = visitedStates t.log := by
      rw [attempts.visitedStates_eq, none, Option.toList_none, List.append_nil]
    exact ⟨⟨attempts.log ▸ bounded.stays, log ▸ bounded.atEnd.stays, log ▸ bounded.atEnd.last⟩,
      nofun⟩
  | @exitAfter _ _ _ v y attempts taken =>
    obtain ⟨-, stays⟩ := bounded.follows limits guard attempts taken
    have log : visitedStates (v.afterHook .poststep y).log = recordedStates t.log ++ [y] := by
      rw [visitedStates_afterHook, attempts.visitedStates_eq, taken, bounded.visited,
        Option.toList_some]
    refine ⟨⟨?_, log ▸ stays, by rw [log, List.getLast?_concat]⟩, nofun⟩
    rw [recordedStates_afterHook, attempts.log]
    exact bounded.stays
  | @recorded _ _ _ _ _ y _ _ _ attempts taken _ _ _ keeps advance =>
    obtain ⟨shape, stays⟩ := bounded.follows limits guard attempts taken
    have recorded : recordedStates u.log = recordedStates t.log ++ [y] := by
      rw [keeps.log]
      simp [attempts.log, recorded?]
    have visited : visitedStates u.log = recordedStates t.log ++ [y] := by
      rw [keeps.log]
      simp [attempts.visitedStates_eq, taken, bounded.visited, visited?]
    have state := (advanced_of_eq_ok advance).state
    have next : Bounded g n it' u :=
      ⟨state ▸ shape, recorded ▸ stays, by rw [recorded, state, List.getLast?_concat],
        visited.trans recorded.symm⟩
    exact ⟨next.atEnd, fun _ => next⟩

end Bounded

/-- The clamped state to start from is inside the bounds. -/
lemma contains_start {v : Vec ℝ} {y : Tensor ℝ} (limits : g.HasLimits x.entries.length low high)
    (guard : F.guard = g.guard) (vector : initialState x = .ok v)
    (guarded : F.guard.value (Tensor.ofVec v) = .ok y) :
    y.shape = [x.entries.length] ∧ g.Contains y := by
  have entries : v = x.entries := by
    unfold initialState at vector
    split_ifs at vector
    exact (Except.ok.inj vector).symm
  obtain ⟨z, clamped, shape, contains⟩ :=
    limits.suits.exists_clamped (x := Tensor.ofVec v) (by rw [entries]; rfl)
  rw [guard] at guarded
  obtain rfl : z = y := Except.ok.inj (clamped.symm.trans guarded)
  exact ⟨shape, contains⟩

lemma Started.bounded {t : Solver ℝ} {norm : ℝ} {it : Iteration ℝ}
    (limits : g.HasLimits x.entries.length low high) (guard : F.guard = g.guard)
    (started : Started F s x norm it t) : Bounded g x.entries.length it t := by
  have recorded := started.log
  obtain ⟨-, -, visited⟩ := started.booked
  cases started with
  | mk vector _ _ guarded =>
    obtain ⟨shape, contains⟩ := contains_start limits guard vector guarded
    exact ⟨shape, recorded ▸ .singleton contains, by rw [recorded, List.getLast?_singleton],
      visited⟩

/-- States stay inside the bounds along a run, or escape. -/
def boundedness (s : Solver ℝ) (limits : g.HasLimits x.entries.length low high)
    (guard : F.guard = g.guard) : Invariant F s x where
  during _ := Bounded g x.entries.length
  after _ := BoundedAtEnd g
  failed t := g.StaysInside (recordedStates t.log)
  failed_early log := log ▸ .nil
  failed_at_start vector guarded _ log :=
    log ▸ .singleton (contains_start limits guard vector guarded).2
  start started _ _ := started.bounded limits guard
  stop_at_start started _ _ := (started.bounded limits guard).atEnd
  next _ bounded passed := (bounded.pass limits guard passed).2 rfl
  last _ bounded passed := (bounded.pass limits guard passed).1
  failed_pass := by
    rintro _ it t t' - bounded (log | ⟨pre, out, u, y, attempts, taken, log⟩)
    · exact log ▸ bounded.stays
    · exact log ▸ (bounded.follows limits guard attempts taken).2
  failed_limit bounded := bounded.stays
  failed_hook bounded := bounded.recorded

/-- With a guard made of bounds, every run begins inside them, whatever the residual and the
preconditioner are. A state that it accepts after one inside is inside as well, unless all the steps
that the guard may try lead out. If the run ends with a solution, this holds of all states that were
accepted, and the solution is the last of them. -/
theorem solve_bounded (bound : s.system = some F) (guard : F.guard = g.guard)
    (limits : g.HasLimits x.entries.length low high) :
    g.StaysInside (recordedStates ((solve x).run s).2.log) ∧
      ∀ sol, ((solve x).run s).1 = .ok sol →
        g.StaysInside (visitedStates sol.log) ∧
          (visitedStates sol.log).getLast? = some sol.state := by
  have leads := (boundedness s limits guard).solve bound
  unfold Leads at leads
  rcases run : (solve x).run s with ⟨e | sol, t⟩
  · rw [run] at leads
    exact ⟨leads, nofun⟩
  · rw [run] at leads
    obtain ⟨norm, it, v, answer, bounded, called, rfl, rfl⟩ := leads
    refine ⟨by simpa using bounded.recorded, ?_⟩
    rintro _ ⟨⟩
    dsimp only
    rw [visitedStates_afterHook]
    exact ⟨bounded.stays, bounded.last⟩

/-! ### A step from a bound -/

/-- The residual `a + 1`, which has its root outside the bounds. -/
noncomputable def plusOne : NonlinearSystem ℝ := ⟨fun x => .ok (x.map (· + 1)), nonnegative.guard⟩

lemma plusOne_zero : plusOne.residual (.ofVec [0]) = .ok (.ofVec [1]) := by
  simp [plusOne]

lemma norm_ofVec_one : (Tensor.ofVec [(1 : ℝ)]).norm = 1 := by
  rw [Tensor.norm_ofVec, norm_singleton, abs_one]

/-- An iteration of at most one step towards the root outside the bounds. -/
noncomputable def leaving : Solver ℝ where
  settings := { turned.settings with tolerance := .ok (1 / 2) }
  system := some plusOne
  preconditioner := .identity

lemma outside_negative {a : ℝ} (negative : a < 0) :
    nonnegative.outside (.ofVec [a]) = .ok true := by
  obtain ⟨b, outside, -⟩ := (hasLimits_nonnegative 1).suits.exists_outside (x := .ofVec [a]) rfl
  cases b with
  | true => exact outside
  | false => exact absurd negative (not_lt_of_contains outside)

lemma clamp_zero : nonnegative.clamp (.ofVec [0]) = .ok (Tensor.ofVec [(0 : ℝ)]) := by
  have raised : Tensor.combine Scalar.max (.ofVec [0]) (.ofScalar 0)
      = .ok (Tensor.ofVec [(0 : ℝ)]) := by
    rw [(IsBound.number (n := 1) 0).combine _ rfl]
    simp [Tensor.ofVec, Scalar.max_real]
  change (Tensor.combine Scalar.max (.ofVec [0]) (.ofScalar 0) >>= fun y =>
    clampTo Scalar.min y none) = _
  rw [raised]
  rfl

/-- From zero every step down is shortened to the last. -/
lemma shorten_from_zero {d : ℝ} (positive : 0 < d) (m : ℕ) :
    nonnegative.shorten (.ofVec [0]) m (.ofVec [d]) = .ok (.ofVec [(1 / 2) ^ m * d]) := by
  induction m generalizing d with
  | zero => simp [shorten]
  | succ m ih =>
    have moved : Tensor.combine (· - ·) (Tensor.ofVec [(0 : ℝ)]) (.ofVec [d])
        = .ok (.ofVec [0 - d]) := rfl
    rw [shorten, moved, ok_bind, outside_negative (by linarith), ok_bind, if_pos rfl]
    have half : (Tensor.ofVec [d]).smul nonnegative.relax = .ofVec [1 / 2 * d] := by
      rw [Tensor.smul_ofVec, ← Scalar.half_real]
      rfl
    rw [half, ih (by positivity), pow_succ, mul_assoc]

section Leaving

/-- A number as a point. -/
noncomputable def point (a : ℝ) : Space 1 := WithLp.toLp 2 fun _ => a

lemma ofSpace_point (a : ℝ) : ofSpace (point a) = [a] := by simp [ofSpace, point]

lemma norm_point (a : ℝ) : ‖point a‖ = |a| := by
  rw [← norm_ofSpace, ofSpace_point, norm_singleton]

variable {s : Solver ℝ}

/-- Where `leaving` looks for its step. -/
structure Leaving (s : Solver ℝ) : Prop where
  settings : s.settings = leaving.settings
  system : s.system = leaving.system
  preconditioner : s.preconditioner = .identity
  workspace : s.workspace = some (.empty 1 1)

/-- The Jacobian of `leaving` at zero is the identity, and so is its preconditioner. -/
lemma Leaving.invertible (ready : Leaving s) :
    Invertible 1 s (.ofVec (ofSpace (0 : Space 1))) (.ofVec (ofSpace (point 1))) .id .id := by
  have acts : ActsAs plusOne.residual
      fun x : Space 1 => (LinearMap.id : Space 1 →ₗ[ℝ] Space 1) x - point (-1) := by
    intro x
    refine (ActsAs.entrywise (· + 1) x).trans ?_
    congr
    ext i
    simp [point]
  have preconditioner : ActsAs s.preconditioner.action (LinearMap.id : Space 1 →ₗ[ℝ] Space 1) := by
    rw [ready.preconditioner]
    exact ActsAs.ok
  have difference : s.settings.difference = .number (.ok (1 / 2)) := by
    rw [ready.settings]
    rfl
  have jacobian := actsAs_jacobian (ready.system.trans rfl) acts preconditioner difference
    (by norm_num) 0
  have residual : (LinearMap.id : Space 1 →ₗ[ℝ] Space 1) 0 - point (-1) = point 1 := by
    ext i
    simp [point]
  rw [residual] at jacobian
  exact ⟨jacobian, preconditioner, Function.bijective_id, _, ready.workspace, rfl⟩

/-- The full step is as long as the residual. -/
lemma linearSolve_leads_leaving (ready : Leaving s) (index : ℤ) :
    Leads (linearSolve (.ofVec [0]) (.ofVec [1]) 1 index) s (fun result _ => result.1 = .ofVec [1])
      fun _ => False := by
  have solves : SolvesUpTo 0 s.settings := by
    rw [ready.settings]
    exact ⟨⟨1, rfl, le_rfl⟩, ⟨1 / 2, rfl, by norm_num⟩, rfl, nofun⟩
  have norm : ‖point 1‖ = 1 := by rw [norm_point, abs_one]
  have nonzero : point 1 ≠ 0 := by
    rw [← norm_ne_zero_iff, norm]
    exact one_ne_zero
  have solve := linearSolve_leads solves ready.invertible rfl le_rfl nonzero index
  have zero : ofSpace (0 : Space 1) = [0] := ofSpace_zero
  rw [norm, ofSpace_point, zero] at solve
  refine solve.mono ?_ fun _ => id
  rintro ⟨dx, norms⟩ _ ⟨d, rfl, below | same⟩
  · exact absurd below (not_lt.mpr (by positivity))
  · obtain rfl : d = point 1 := same
    rw [ofSpace_point]

/-- Where the step leads. -/
noncomputable def belowZero : Tensor ℝ := .ofVec [0 - (1 / 2) ^ 60]

lemma newtonStep_leads_leaving (ready : Leaving s) (index : ℤ) :
    Leads (newtonStep (.ofVec [0]) (.ofVec [1]) 1 index) s
      (fun out _ => ∃ z, out.state = some z ∧ z = belowZero) fun _ => False := by
  refine newtonStep_leads_full (ready.system.trans rfl) (R := fun dx _ => dx = .ofVec [1])
    (linearSolve_leads_leaving ready index) ?_
  rintro _ norms rfl
  have moved : Tensor.combine (· - ·) (Tensor.ofVec [(0 : ℝ)]) (.ofVec [(1 / 2) ^ 60 * 1])
      = .ok belowZero := by
    rw [belowZero, mul_one]
    rfl
  have value : normAfter plusOne (.ofVec [0]) (.ofVec [(1 / 2) ^ 60 * 1])
      = .ok (1 - (1 / 2) ^ 60) := by
    unfold normAfter
    rw [moved, ok_bind]
    have norm : (belowZero.map (· + 1)).norm = 1 - (1 / 2) ^ 60 := by
      rw [belowZero, Tensor.map_ofVec]
      exact (norm_singleton _).trans (by norm_num)
    exact congrArg Except.ok norm
  exact ⟨_, _, _, _, shorten_from_zero one_pos 60, value, by norm_num, moved,
    Tensor.maxNorm_ofVec _, _, rfl, rfl⟩

lemma quiet_leaving : leaving.settings.Quiet (1 / 2) (.count 1) where
  unhooked := fun _ => rfl
  unset := rfl
  maxIterations := rfl
  tolerance := rfl
  directory := nofun

lemma solve_leads_leaving :
    Leads (solve (.ofVec [0])) leaving (fun sol _ => sol.state = belowZero) fun _ => False := by
  have allocates : Leads (allocate (List.length [(0 : ℝ)])) { leaving with log := [] }
      (fun _ t => t.workspace = some (.empty 1 1)) fun _ => False := by
    unfold allocate
    rw [leads_bind, leads_get]
    exact .ok_bind rfl (.ok_bind rfl (.ok_bind rfl rfl))
  refine (quiet_leaving.solve_leads (F := plusOne) (v := [0]) (p := .identity)
    (W := (· = some (.empty 1 1))) (Q := fun _ z => z = belowZero) rfl rfl allocates clamp_zero
    plusOne_zero rfl zero_lt_one ?_ ?_).mono ?_ fun _ => id
  · intro _ t settings system preconditioner workspace
    rw [norm_ofVec_one]
    exact newtonStep_leads_leaving ⟨settings, system, preconditioner, workspace⟩ 1
  · exact fun _ _ _ => ⟨⟨_, rfl⟩, .inr rfl⟩
  · rw [norm_ofVec_one]
    rintro sol _ (⟨small, -⟩ | ⟨-, out, _, -, rfl, rfl⟩)
    · exact absurd small (by norm_num)
    · rfl

end Leaving

/-- A solution outside the bounds, with the usual settings of the guard. -/
theorem not_contains_leaving : ∃ sol, ((solve (.ofVec [0])).run leaving).1 = .ok sol ∧
    sol.state = .ofVec [0 - (1 / 2) ^ 60] ∧ ¬ nonnegative.Contains sol.state := by
  obtain ⟨sol, t, run, state⟩ := solve_leads_leaving.exists_ok
  refine ⟨sol, by rw [run], state, ?_⟩
  rw [state]
  exact fun contains => not_lt_of_contains contains (by norm_num)

/-- The state escapes: from zero the guard has tried all its steps. -/
theorem solve_bounded_leaving : ∃ sol, ((solve (.ofVec [0])).run leaving).1 = .ok sol ∧
    nonnegative.StaysInside (visitedStates sol.log) ∧
    (visitedStates sol.log).getLast? = some sol.state := by
  obtain ⟨sol, t, run, state⟩ := solve_leads_leaving.exists_ok
  have bounded := solve_bounded (s := leaving) (x := .ofVec [0]) rfl rfl (hasLimits_nonnegative 1)
  exact ⟨sol, by rw [run], bounded.2 sol (by rw [run])⟩

end Solver

end NewtonKrylov
