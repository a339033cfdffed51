import NewtonKrylov.Proofs.Guard
import NewtonKrylov.Proofs.Krylov.Directions
import NewtonKrylov.Proofs.Newton.Step

/-!
# Where a linear solve evaluates the residual

The guard mends states and steps, but not the arguments of the difference quotients by which a
linear solve applies the Jacobian. These are probes: a probe is the state, moved along a
preconditioned unit vector by the scale of the differences. So it may lie outside the bounds, but by
no more than the length of this move in each entry, and from a state that keeps this distance from
its limits all probes lie inside.

That a solve evaluates the residual at no other argument is said by what it does with another
residual: if that one has the same values at all probes, the solve does the same.
-/

namespace NewtonKrylov

open Vec

variable {n m : ℕ}

/-- The state `x`, moved by `ε` along the direction `w` that the preconditioner makes of a unit
vector, is `y`. -/
structure IsProbe (n : ℕ) (action : Operator ℝ) (ε : ℝ) (x w y : Vec ℝ) : Prop where
  direction : ∃ z, IsDirection n z ∧ action (Tensor.ofVec z) = .ok (Tensor.ofVec w)
  state : y = add x (smul ε w)

/-! ### Probes and limits -/

/-- Limits moved down by a multiple of the sizes of the entries of `w`. -/
noncomputable def lowered (c : ℝ) (w : Vec ℝ) (limits : Option (Vec ℝ)) : Option (Vec ℝ) :=
  limits.map fun l => List.zipWith (fun b d => b - c * |d|) l w

/-- A relation to limits, after a move of the entries and of the limits. -/
lemma Entrywise.add_smul {R S : ℝ → ℝ → Prop} {x l : Vec ℝ} (entries : Entrywise R x l) {ε c : ℝ}
    (moves : ∀ a b d, R a b → S (a + ε * d) (b - c * |d|)) (w : Vec ℝ) :
    Entrywise S (add x (smul ε w)) (List.zipWith (fun b d => b - c * |d|) l w) := by
  intro i _ _ at_x at_l
  obtain ⟨a, _, at_a, scaled, rfl⟩ := List.getElem?_zipWith_eq_some.mp at_x
  obtain ⟨b, d, at_b, at_d, rfl⟩ := List.getElem?_zipWith_eq_some.mp at_l
  rw [Vec.smul, List.getElem?_map, at_d, Option.map_some, Option.some.injEq] at scaled
  rw [← scaled]
  exact moves a b d (entries i a b at_a at_b)

/-- Limits that are moved apart for a state contain it after a move. -/
lemma Within.add_smul {low high : Option (Vec ℝ)} {x : Vec ℝ} (within : Within low high x) {ε : ℝ}
    (positive : 0 < ε) (w : Vec ℝ) :
    Within (lowered ε w low) (lowered (-ε) w high) (add x (smul ε w)) := by
  constructor
  · intro _ mem
    obtain ⟨l, given, rfl⟩ := Option.map_eq_some_iff.mp mem
    refine (within.lower l given).add_smul (fun a b d le => ?_) w
    have move := mul_le_mul_of_nonneg_left (neg_abs_le d) positive.le
    linarith
  · intro _ mem
    obtain ⟨h, given, rfl⟩ := Option.map_eq_some_iff.mp mem
    refine (within.upper h given).add_smul (fun a b d le => ?_) w
    have move := mul_le_mul_of_nonneg_left (le_abs_self d) positive.le
    linarith

/-- Limits that are moved there and back are the old ones. -/
lemma lowered_lowered {w : Vec ℝ} {limits : Option (Vec ℝ)} (c : ℝ)
    (length : ∀ l ∈ limits, l.length = w.length) :
    lowered c w (lowered (-c) w limits) = limits := by
  cases limits with
  | none => rfl
  | some l =>
    have same := length l rfl
    refine congrArg some (List.ext_getElem (by simp [same]) fun i _ _ => ?_)
    simp

namespace IsProbe

variable {action : Operator ℝ} {ε : ℝ} {x w y : Vec ℝ} {low high : Option (Vec ℝ)}

/-- A probe leaves limits by no more than the length of the move in each entry. -/
lemma within (probe : IsProbe n action ε x w y) (positive : 0 < ε) (within : Within low high x) :
    Within (lowered ε w low) (lowered (-ε) w high) y :=
  probe.state ▸ within.add_smul positive w

/-- From a state that keeps the distance of the move, a probe is inside the bounds. -/
lemma contains {g : Bounds ℝ} (probe : IsProbe n action ε x w y) (positive : 0 < ε)
    (limits : g.HasLimits n low high) (x_length : x.length = n) (w_length : w.length = n)
    (within : Within (lowered (-ε) w low) (lowered ε w high) x) : g.Contains (Tensor.ofVec y) := by
  have moved := within.add_smul positive w
  have back : lowered (-ε) w (lowered ε w high) = high := by
    have again : lowered (-ε) w (lowered (- -ε) w high) = high := lowered_lowered _
      fun h mem => (IsBound.length_of_rel limits.upper h mem).trans w_length.symm
    rwa [neg_neg] at again
  have forth : lowered ε w (lowered (-ε) w low) = low := lowered_lowered _
    fun l mem => (IsBound.length_of_rel limits.lower l mem).trans w_length.symm
  rw [forth, back, ← probe.state] at moved
  have y_length : y.length = n := by
    rw [probe.state, add, List.length_zipWith, length_smul, x_length, w_length, min_self]
  exact (limits.contains_iff (congrArg ([·]) y_length)).mpr moved

end IsProbe

/-! ### The linear solve -/

namespace Solver

/-- The solver for another residual. -/
def withResidual {α : Type} (s : Solver α) (G : Operator α) : Solver α :=
  { s with system := s.system.map fun F => ⟨G, F.guard⟩ }

lemma allocatedWorkspace_agree {α : Type} (s : Solver α) (G : Operator α) :
    Agree allocatedWorkspace allocatedWorkspace (withResidual · G) s := by
  unfold allocatedWorkspace
  refine .get_bind ?_
  dsimp only [withResidual]
  cases s.workspace <;> rfl

/-- A solver for the system `F` on vectors of length `n`, with room for `m` steps in a cycle. The
residual and the preconditioner may be undefined on some of the vectors. -/
structure Probing (n m : ℕ) (s : Solver ℝ) (F : NonlinearSystem ℝ) (ε : ℝ) : Prop where
  system : s.system = some F
  residual : MapsVectors n F.residual
  preconditioner : MapsVectors n s.preconditioner.action
  difference : s.settings.difference = .number (.ok ε)
  workspace : ∃ ws, s.workspace = some ws ∧ ws.reset = .empty n m
  room : m ≤ n

/-- At all probes from `x` the other residual has the same value. -/
def SameAtProbes (n : ℕ) (s : Solver ℝ) (F : NonlinearSystem ℝ) (ε : ℝ) (x : Vec ℝ)
    (G : Operator ℝ) : Prop :=
  ∀ w y, IsProbe n s.preconditioner.action ε x w y →
    G (Tensor.ofVec y) = F.residual (Tensor.ofVec y)

namespace Probing

variable {s : Solver ℝ} {F : NonlinearSystem ℝ} {G : Operator ℝ} {ε : ℝ} {x r : Vec ℝ}

lemma mapsVectors_jacobian (probing : Probing n m s F ε) (x_length : x.length = n)
    (r_length : r.length = n) : MapsVectors n (s.jacobian (Tensor.ofVec x) (Tensor.ofVec r)) := by
  intro z y length applied
  unfold jacobian at applied
  rw [probing.system, probing.difference] at applied
  obtain ⟨_, image, applied⟩ := bind_eq_ok.mp applied
  obtain ⟨w, w_length, rfl⟩ := probing.preconditioner z _ length image
  have same : x.length = (smul ε w).length := by rw [length_smul, x_length, w_length]
  dsimp only at applied
  rw [DifferenceScale.times_number, ok_bind, Tensor.smul_ofVec, Tensor.combine_ofVec _ same,
    ok_bind] at applied
  obtain ⟨_, value, applied⟩ := bind_eq_ok.mp applied
  obtain ⟨v, v_length, rfl⟩ := probing.residual _ _
    (by rw [List.length_zipWith, ← same, x_length, min_self]) value
  rw [Tensor.combine_ofVec _ (v_length.trans r_length.symm), ok_bind,
    DifferenceScale.quotient_number, Except.ok.injEq] at applied
  refine ⟨_, ?_, applied.symm.trans (Tensor.map_ofVec _ _)⟩
  rw [List.length_map, List.length_zipWith, v_length, r_length, min_self]

/-- The Jacobian of another residual is the same on directions. -/
lemma agreeOnDirections (probing : Probing n m s F ε) (x_length : x.length = n)
    (same : SameAtProbes n s F ε x G) (r : Tensor ℝ) :
    AgreeOnDirections n (s.jacobian (Tensor.ofVec x) r)
      ((s.withResidual G).jacobian (Tensor.ofVec x) r) := by
  intro z direction
  unfold jacobian
  rw [withResidual, probing.system, probing.difference]
  cases image : s.preconditioner.action (Tensor.ofVec z) with
  | error e => rfl
  | ok t =>
    obtain ⟨w, w_length, rfl⟩ := probing.preconditioner z t direction.length image
    have lengths : x.length = (smul ε w).length := by rw [length_smul, x_length, w_length]
    have probe : IsProbe n s.preconditioner.action ε x w (add x (smul ε w)) :=
      ⟨⟨z, direction, image⟩, rfl⟩
    have value := same w _ probe
    simp only [Option.map_some, ok_bind, DifferenceScale.times_number, Tensor.smul_ofVec,
      Tensor.combine_ofVec _ lengths]
    rw [add] at value
    rw [value]

/-- What a cycle leaves the solver with. -/
lemma krylovCycle_leads (probing : Probing n m s F ε) (x_length : x.length = n)
    (base : r.length = n) {rₖ : Vec ℝ} (length : rₖ.length = n) :
    Leads (krylovCycle (Tensor.ofVec x) (Tensor.ofVec r) (Tensor.ofVec rₖ) (Vec.norm rₖ)) s
      (fun result t => Probing n m t F ε ∧ t.preconditioner = s.preconditioner ∧
        ∃ r' : Vec ℝ, r'.length = n ∧ result.2.residual = Tensor.ofVec r' ∧
          result.2.norm = Vec.norm r') fun _ => True := by
  obtain ⟨used, given, empty⟩ := probing.workspace
  have cycle := Cycle.run_leads s.settings.threshold s.settings.krylovTolerance.computed
    used.capacity (probing.mapsVectors_jacobian x_length base) probing.room empty length
  refine (krylovCycle_ends given).mono ?_ fun _ => id
  rintro ⟨step, out⟩ _ ⟨ws, run, rfl⟩
  have handsOn : Cycle.HandsOn n m out ws := cycle.result run
  exact ⟨⟨probing.system, probing.residual, probing.preconditioner, probing.difference,
    ⟨ws, rfl, handsOn.reset⟩, probing.room⟩, rfl, handsOn.residual⟩

/-- A cycle is the same for another residual. -/
lemma krylovCycle_agree (probing : Probing n m s F ε) (x_length : x.length = n)
    (base : r.length = n) (same : SameAtProbes n s F ε x G) {rₖ : Vec ℝ} (length : rₖ.length = n) :
    Agree (krylovCycle (Tensor.ofVec x) (Tensor.ofVec r) (Tensor.ofVec rₖ) (Vec.norm rₖ))
      (krylovCycle (Tensor.ofVec x) (Tensor.ofVec r) (Tensor.ofVec rₖ) (Vec.norm rₖ))
      (withResidual · G) s := by
  obtain ⟨used, given, empty⟩ := probing.workspace
  have cycle : (s.withResidual G).cycleIn used (Tensor.ofVec x) (Tensor.ofVec r) (Tensor.ofVec rₖ)
      (Vec.norm rₖ) = s.cycleIn used (Tensor.ofVec x) (Tensor.ofVec r) (Tensor.ofVec rₖ)
      (Vec.norm rₖ) :=
    Cycle.run_agree _ _ _ (probing.mapsVectors_jacobian x_length base)
      (probing.agreeOnDirections x_length same (Tensor.ofVec r)) probing.room empty length
  rw [krylovCycle_eq]
  refine Agree.bind (allocatedWorkspace_agree s G) fun ws t run => ?_
  have kept : Leads allocatedWorkspace s (fun ws t => ws = used ∧ t = s) fun _ => False :=
    allocatedWorkspace_leads given ⟨rfl, rfl⟩
  obtain ⟨rfl, rfl⟩ := kept.result run
  refine .get_bind ?_
  rw [cycle]
  rcases t.cycleIn ws (Tensor.ofVec x) (Tensor.ofVec r) (Tensor.ofVec rₖ) (Vec.norm rₖ)
    with ⟨result, ws'⟩
  refine .set_bind rfl (.lift_bind fun out _ => ?_)
  split_ifs
  · rfl
  · exact .lift_bind fun _ _ => rfl

/-- All cycles are the same. -/
lemma krylovCycles_agree {N : ℕ} (probing : Probing n m s F ε) (x_length : x.length = n)
    (base : r.length = n) (same : SameAtProbes n s F ε x G) (dx : Tensor ℝ) {rₖ : Vec ℝ}
    (length : rₖ.length = n) :
    Agree (krylovCycles (Tensor.ofVec x) (Tensor.ofVec r) N dx (Tensor.ofVec rₖ) (Vec.norm rₖ))
      (krylovCycles (Tensor.ofVec x) (Tensor.ofVec r) N dx (Tensor.ofVec rₖ) (Vec.norm rₖ))
      (withResidual · G) s := by
  -- By induction on the cycles. Every one of them begins with a vector of the right length, so its
  -- directions are unit vectors, and all arguments of the residual are probes.
  induction N generalizing s dx rₖ with
  | zero => rfl
  | succ N ih =>
    unfold krylovCycles
    refine (probing.krylovCycle_agree x_length base same length).bind ?_
    rintro ⟨step, out⟩ t run
    obtain ⟨next, preconditioner, r', r'_length, residual, norm⟩ :=
      (probing.krylovCycle_leads x_length base length).result run
    refine .lift_bind fun dx _ => .get_bind (.lift_bind fun τ _ => ?_)
    split_ifs
    · rfl
    · -- The next cycle has another residual to start from, but the same state and preconditioner.
      have same : SameAtProbes n t F ε x G := by
        unfold SameAtProbes
        rwa [preconditioner]
      dsimp only at residual norm ⊢
      rw [residual, norm]
      exact (ih next same dx r'_length).bind fun _ _ _ => rfl

/-- The linear solve for another residual that has the same values at all probes. -/
theorem linearSolve_agree (probing : Probing n m s F ε) (x_length : x.length = n)
    (length : r.length = n) (same : SameAtProbes n s F ε x G) (index : ℤ) :
    Agree (linearSolve (Tensor.ofVec x) (Tensor.ofVec r) (Vec.norm r) index)
      (linearSolve (Tensor.ofVec x) (Tensor.ofVec r) (Vec.norm r) index) (withResidual · G) s := by
  unfold linearSolve
  refine .get_bind (.lift_bind fun N _ => ?_)
  refine (probing.krylovCycles_agree x_length length same _ length).bind fun (dx, norms) t _ => ?_
  dsimp only [withResidual]
  cases s.settings.krylovDirectory with
  | none => rfl
  | some directory => exact .lift_bind fun path _ => rfl

end Probing

/-- A linear solve evaluates the residual at probes only: for another residual with the same values
there it does the same. From a state inside the bounds a probe leaves them by no more than the
length of its move in each entry, and if the state keeps this distance from its limits, the probe is
inside. -/
theorem linearSolve_probes {s : Solver ℝ} {f : Operator ℝ} {g : Bounds ℝ} {ε : ℝ} {x r : Vec ℝ}
    {low high : Option (Vec ℝ)} (probing : Probing n m s ⟨f, g.guard⟩ ε) (positive : 0 < ε)
    (limits : g.HasLimits n low high) (x_length : x.length = n)
    (contains : g.Contains (Tensor.ofVec x)) (r_length : r.length = n) (index : ℤ) :
    (∀ G, SameAtProbes n s ⟨f, g.guard⟩ ε x G →
      Agree (linearSolve (Tensor.ofVec x) (Tensor.ofVec r) (Vec.norm r) index)
        (linearSolve (Tensor.ofVec x) (Tensor.ofVec r) (Vec.norm r) index) (withResidual · G) s) ∧
      ∀ w y, IsProbe n s.preconditioner.action ε x w y →
        Within (lowered ε w low) (lowered (-ε) w high) y ∧
          (Within (lowered (-ε) w low) (lowered ε w high) x → g.Contains (Tensor.ofVec y)) := by
  have within : Within low high x :=
    (limits.contains_iff (congrArg ([·]) x_length)).mp contains
  refine ⟨fun G same => probing.linearSolve_agree x_length r_length same index, ?_⟩
  intro w y probe
  have w_length : w.length = n := by
    obtain ⟨z, direction, image⟩ := probe.direction
    obtain ⟨w', length, same⟩ := probing.preconditioner z _ direction.length image
    obtain rfl : w = w' := congrArg Tensor.entries same
    exact length
  exact ⟨probe.within positive within, probe.contains positive limits x_length w_length⟩

/-! ### Linear solves with the bound zero -/

section AboveZero

variable {α : Type} [Scalar α]

/-- One step for a residual of one number that is not negative. -/
def aboveZero (residual : Operator α) : Solver α where
  settings :=
    { maxIterations := .ok (.count 1)
      tolerance := .ok 0
      stepTolerance := none
      difference := .number (.ok Scalar.half)
      restarts := .ok 1
      krylovSteps := none
      krylovTolerance := .ofNumber 0
      threshold := .ok 0
      searchSteps := .ok (.count 0)
      searchTolerance := .ofNumber 0
      hooks := fun _ => none }
  system := some ⟨residual, Bounds.nonnegative.guard⟩
  preconditioner := .identity
  workspace := some (.empty 1 1)

/-- The residual `a - 1`. -/
def minusOne : Operator α := fun x => .ok (x.map (· - 1))

/-- The residual `a - 1`, which has no meaning below zero. -/
def minusOneAbove : Operator α := fun x => .ok (x.map fun a => if a < 0 then 0 / 0 else a - 1)

lemma minusOneAbove_of_contains {a : α} (contains : Bounds.nonnegative.Contains (.ofVec [a])) :
    minusOneAbove (.ofVec [a]) = minusOne (.ofVec [a]) := by
  simp [minusOneAbove, minusOne, Bounds.not_lt_of_contains contains]

end AboveZero

lemma probing_aboveZero :
    Probing 1 1 (aboveZero minusOne) ⟨minusOne, Bounds.nonnegative.guard⟩ (1 / 2) where
  system := rfl
  residual := by
    rintro z _ length ⟨rfl⟩
    exact ⟨z.map (· - 1), by rw [List.length_map, length], Tensor.map_ofVec _ _⟩
  preconditioner := by
    rintro z _ length ⟨rfl⟩
    exact ⟨z, length, rfl⟩
  difference := by
    rw [← Scalar.half_real]
    rfl
  workspace := ⟨_, rfl, rfl⟩
  room := le_rfl

/-- From a state that is as far from the bound as the probes reach, it makes no difference that the
residual has no meaning below zero. -/
theorem linearSolve_probes_half :
    Agree (linearSolve (.ofVec [1 / 2]) (.ofVec [-(1 / 2)]) (Vec.norm [-(1 / 2)]) 0)
      (linearSolve (.ofVec [1 / 2]) (.ofVec [-(1 / 2)]) (Vec.norm [-(1 / 2)]) 0)
      (withResidual · minusOneAbove) (aboveZero (minusOne : Operator ℝ)) := by
  have limits := Bounds.hasLimits_nonnegative 1
  have contains : Bounds.nonnegative.Contains (Tensor.ofVec [(1 / 2 : ℝ)]) := by
    rw [limits.contains_iff rfl]
    refine ⟨?_, nofun⟩
    rintro _ ⟨rfl⟩
    exact .singleton one_half_pos.le
  have probes := linearSolve_probes (r := [-(1 / 2)]) probing_aboveZero one_half_pos limits rfl
    contains rfl 0
  refine probes.1 _ fun w y probe => ?_
  obtain ⟨z, direction, image⟩ := probe.direction
  obtain rfl : z = w := congrArg Tensor.entries (Except.ok.inj image)
  obtain ⟨b, rfl⟩ := List.length_eq_one_iff.mp direction.length
  have size : |b| = 1 := by rw [← Vec.norm_singleton, direction.norm]
  have inside := (probes.2 _ y probe).2 ?_
  · obtain rfl : y = [1 / 2 + 1 / 2 * b] := probe.state
    exact minusOneAbove_of_contains inside
  · refine ⟨?_, nofun⟩
    rintro _ ⟨rfl⟩
    refine .singleton ?_
    dsimp only
    rw [size]
    norm_num

/-- The two residuals agree inside the bounds, and zero is inside. But from there only one of the
linear solves finds a number, so the other has evaluated its residual outside. -/
theorem linearSolve_leaves_bounds :
    (∀ a : Float, Bounds.nonnegative.Contains (.ofVec [a]) →
      minusOneAbove (.ofVec [a]) = minusOne (.ofVec [a])) ∧
    Bounds.nonnegative.Contains (.ofVec [(0 : Float)]) ∧
    ((linearSolve (.ofVec [0]) (.ofVec [-1]) 1 0).run (aboveZero minusOne)).1.map
      (fun result => result.1.entries) = .ok [(-1 : Float)] ∧
    ((linearSolve (.ofVec [0]) (.ofVec [-1]) 1 0).run (aboveZero minusOneAbove)).1.map
      (fun result => result.1.entries.map Float.isNaN) = .ok [true] :=
  ⟨fun _ => minusOneAbove_of_contains, by decide +kernel, by decide +kernel, by decide +kernel⟩

end Solver

end NewtonKrylov
