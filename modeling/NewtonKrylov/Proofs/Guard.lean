import NewtonKrylov.Guard
import NewtonKrylov.Proofs.Effects
import NewtonKrylov.Proofs.Exact
import NewtonKrylov.Proofs.Spreading

/-!
# Bounds in exact arithmetic

A bound is one number for all entries of a state, or has an entry for each of them. Either way it is
a list of limits, and a state is inside the bounds if each of its entries is between its limits. So
the states inside are a convex set, and the clamp leads into it if no lower limit is above an upper
one. `Suits` says so for states of any shape over which the bounds can be spread, and `HasLimits` is
the case of vectors.

A step is shortened as long as it leads out, but only a given number of times. `exists_shortened`
says what has become of it then: it is a multiple of the proposed one by a power of the factor, all
powers before this one lead out, and unless it is the last one that may be tried, it stays inside.
-/

namespace NewtonKrylov

namespace Scalar

lemma max_real (a b : ℝ) : Scalar.max a b = Max.max a b := by
  rcases lt_or_ge b a with lt | le
  · rw [Scalar.max, if_pos (.inl lt), max_eq_left lt.le]
  · rw [Scalar.max, if_neg (by simpa using le), max_eq_right le]

lemma min_real (a b : ℝ) : Scalar.min a b = Min.min a b := by
  rcases lt_or_ge a b with lt | le
  · rw [Scalar.min, if_pos (.inl lt), min_eq_left lt.le]
  · rw [Scalar.min, if_neg (by simpa using le), min_eq_right le]

end Scalar

variable {n : ℕ}

/-! ### Entries of a bound -/

/-- A bound for vectors of length `n`, with its entries. -/
inductive IsBound (n : ℕ) : Tensor ℝ → Vec ℝ → Prop
  | number (a : ℝ) : IsBound n (.ofScalar a) (List.replicate n a)
  | entries {l : Vec ℝ} (length : l.length = n) : IsBound n (.ofVec l) l

namespace Tensor

lemma smul_one (p : Tensor ℝ) : p.smul 1 = p := by
  simp [smul, map]

lemma smul_smul (a b : ℝ) (p : Tensor ℝ) : (p.smul a).smul b = p.smul (b * a) := by
  simp [smul, map, mul_assoc]

end Tensor

namespace IsBound

variable {b : Tensor ℝ} {l : Vec ℝ}

lemma spreadsOver (bound : IsBound n b l) : b.SpreadsOver [n] := by
  cases bound with
  | number a => exact ⟨Tensor.full_ofScalar a, .cons (.inr rfl) .nil⟩
  | entries length =>
    subst length
    exact (Tensor.full_ofVec l).spreadsOver

lemma spreadTo (bound : IsBound n b l) : b.spreadTo [n] = l := by
  cases bound with
  | number a => exact Tensor.spreadTo_ofScalar a
  | entries length =>
    subst length
    exact Tensor.spreadTo_self (Tensor.full_ofVec l)

/-- A state is combined with a bound entry by entry. -/
lemma combine (bound : IsBound n b l) {β : Type} (f : ℝ → ℝ → β) {x : Tensor ℝ}
    (shape : x.shape = [n]) :
    Tensor.combine f x b = .ok ⟨[n], List.zipWith f x.entries l⟩ := by
  rw [Tensor.combine_of_spreadsOver f shape bound.spreadsOver, bound.spreadTo]

end IsBound

/-- There is a limit for each entry. -/
lemma IsBound.length_of_rel {bound : Option (Tensor ℝ)} {limits : Option (Vec ℝ)}
    (rel : Option.Rel (IsBound n) bound limits) : ∀ l ∈ limits, l.length = n := by
  rintro l ⟨rfl⟩
  cases rel with
  | some bound =>
    cases bound with
    | number a => exact List.length_replicate
    | entries length => exact length

/-- The entries that two vectors have at one place are related. -/
def Entrywise (R : ℝ → ℝ → Prop) (xs ys : Vec ℝ) : Prop :=
  ∀ (i : ℕ) (a b : ℝ), xs[i]? = some a → ys[i]? = some b → R a b

@[simp] lemma entrywise_nil {R : ℝ → ℝ → Prop} {ys : Vec ℝ} : Entrywise R [] ys := by
  intro i a b at_i
  simp at at_i

@[simp] lemma entrywise_cons {R : ℝ → ℝ → Prop} {x y : ℝ} {xs ys : Vec ℝ} :
    Entrywise R (x :: xs) (y :: ys) ↔ R x y ∧ Entrywise R xs ys := by
  constructor
  · intro related
    exact ⟨related 0 x y rfl rfl, fun i => related (i + 1)⟩
  · rintro ⟨first, rest⟩ (_ | i) a b at_a at_b
    · cases at_a
      cases at_b
      exact first
    · exact rest i a b at_a at_b

lemma Entrywise.singleton {R : ℝ → ℝ → Prop} {a b : ℝ} (related : R a b) : Entrywise R [a] [b] :=
  entrywise_cons.mpr ⟨related, entrywise_nil⟩

/-- Entries between limits, of which one or both may be missing. -/
structure Within (low high : Option (Vec ℝ)) (xs : Vec ℝ) : Prop where
  lower : ∀ l ∈ low, Entrywise (fun a b => b ≤ a) xs l
  upper : ∀ h ∈ high, Entrywise (fun a b => a ≤ b) xs h

/-- On the way from one list of entries between limits to another there are only such. -/
lemma Within.sub_smul {low high : Option (Vec ℝ)} {xs ds : Vec ℝ} (here : Within low high xs)
    (there : Within low high (List.zipWith (· - ·) xs ds)) {c : ℝ} (nonneg : 0 ≤ c)
    (le_one : c ≤ 1) : Within low high (List.zipWith (· - ·) xs (Vec.smul c ds)) := by
  -- Each entry on the way is a weighted mean of those at the ends.
  have entries {i : ℕ} {a : ℝ} (at_i : (List.zipWith (· - ·) xs (Vec.smul c ds))[i]? = some a) :
      ∃ x d, xs[i]? = some x ∧ (List.zipWith (· - ·) xs ds)[i]? = some (x - d) ∧
        a = (1 - c) * x + c * (x - d) := by
    rw [List.getElem?_zipWith_eq_some] at at_i
    obtain ⟨x, _, at_x, scaled, rfl⟩ := at_i
    rw [Vec.smul, List.getElem?_map] at scaled
    obtain ⟨d, at_d, rfl⟩ := Option.map_eq_some_iff.mp scaled
    exact ⟨x, d, at_x, List.getElem?_zipWith_eq_some.mpr ⟨x, d, at_x, at_d, rfl⟩, by ring⟩
  constructor
  · intro l mem i a b at_i at_b
    obtain ⟨x, d, at_x, at_end, rfl⟩ := entries at_i
    have start := here.lower l mem i x b at_x at_b
    have finish := there.lower l mem i (x - d) b at_end at_b
    nlinarith
  · intro h mem i a b at_i at_b
    obtain ⟨x, d, at_x, at_end, rfl⟩ := entries at_i
    have start := here.upper h mem i x b at_x at_b
    have finish := there.upper h mem i (x - d) b at_end at_b
    nlinarith

namespace Bounds

/-- A state inside the bounds. -/
def Contains {α : Type} [Scalar α] (g : Bounds α) (x : Tensor α) : Prop := g.outside x = .ok false

instance {α : Type} [Scalar α] (g : Bounds α) (x : Tensor α) : Decidable (g.Contains x) :=
  inferInstanceAs (Decidable (g.outside x = .ok false))

/-- Bounds for states of length `n`, with their limits. -/
structure HasLimits (g : Bounds ℝ) (n : ℕ) (low high : Option (Vec ℝ)) : Prop where
  lower : Option.Rel (IsBound n) g.lower low
  upper : Option.Rel (IsBound n) g.upper high
  /-- No lower limit is above the upper one. -/
  le : ∀ l ∈ low, ∀ h ∈ high, Entrywise (fun a b => a ≤ b) l h

lemma any_zipWith_eq_false {wrong : ℝ → ℝ → Bool} {xs l : Vec ℝ} :
    (List.zipWith wrong xs l).any id = false ↔ Entrywise (fun a b => wrong a b = false) xs l := by
  rw [List.any_eq_false]
  constructor
  · intro none i a b at_a at_b
    have mem : wrong a b ∈ List.zipWith wrong xs l :=
      List.mem_of_getElem? (List.getElem?_zipWith_eq_some.mpr ⟨a, b, at_a, at_b, rfl⟩)
    simpa using none _ mem
  · intro none v mem
    obtain ⟨i, at_v⟩ := List.mem_iff_getElem?.mp mem
    obtain ⟨a, b, at_a, at_b, rfl⟩ := List.getElem?_zipWith_eq_some.mp at_v
    simp [none i a b at_a at_b]

/-- The limits that a bound sets to the entries of states of a given shape. -/
def limits (bound : Option (Tensor ℝ)) (shape : List ℕ) : Option (Vec ℝ) :=
  bound.map (·.spreadTo shape)

/-- Bounds that can be spread over states of a given shape, and no lower limit is above the upper
one. -/
structure Suits (g : Bounds ℝ) (shape : List ℕ) : Prop where
  lower : ∀ b ∈ g.lower, b.SpreadsOver shape
  upper : ∀ b ∈ g.upper, b.SpreadsOver shape
  le : ∀ l ∈ limits g.lower shape, ∀ h ∈ limits g.upper shape, Entrywise (fun a b => a ≤ b) l h

section Bound

variable {bound : Option (Tensor ℝ)} {shape : List ℕ} (spreads : ∀ b ∈ bound, b.SpreadsOver shape)
include spreads

lemma violates_eq_ok (wrong : ℝ → ℝ → Bool) {x : Tensor ℝ} (x_shape : x.shape = shape) :
    ∃ v, violates wrong x bound = .ok v ∧
      (v = false ↔
        ∀ l ∈ limits bound shape, Entrywise (fun a b => wrong a b = false) x.entries l) := by
  cases bound with
  | none => exact ⟨false, rfl, by simp [limits]⟩
  | some b =>
    refine ⟨(List.zipWith wrong x.entries (b.spreadTo shape)).any id, ?_, ?_⟩
    · simp [violates, Tensor.combine_of_spreadsOver wrong x_shape (spreads b rfl)]
    · rw [any_zipWith_eq_false]
      simp [limits]

/-- A clamp moves the entries of a state, each with its limit. -/
lemma exists_clampTo (move : ℝ → ℝ → ℝ) {x : Tensor ℝ} (x_shape : x.shape = shape) :
    ∃ y, clampTo move x bound = .ok y ∧ y.shape = shape ∧
      y.entries = (limits bound shape).elim x.entries (List.zipWith move x.entries) := by
  cases bound with
  | none => exact ⟨x, rfl, x_shape, rfl⟩
  | some b => exact ⟨_, Tensor.combine_of_spreadsOver move x_shape (spreads b rfl), rfl, rfl⟩

/-- A clamp leaves a state alone whose entries it does not move. -/
lemma clampTo_eq_self {move : ℝ → ℝ → ℝ} {x : Tensor ℝ} (x_shape : x.shape = shape) (full : x.Full)
    (kept : ∀ l ∈ limits bound shape, Entrywise (fun a b => move a b = a) x.entries l) :
    clampTo move x bound = .ok x := by
  cases bound with
  | none => rfl
  | some b =>
    subst x_shape
    have lengths : x.entries.length = (b.spreadTo x.shape).length := by
      rw [(spreads b rfl).length_spreadTo, full]
    have same : List.zipWith move x.entries (b.spreadTo x.shape) = x.entries := by
      apply List.ext_getElem
      · rw [List.length_zipWith, ← lengths, min_self]
      · intro i inside below
        rw [List.getElem_zipWith]
        exact kept _ rfl i _ _ (List.getElem?_eq_getElem below)
          (List.getElem?_eq_getElem (lengths ▸ below))
    rw [clampTo, Tensor.combine_of_spreadsOver move rfl (spreads b rfl), same]

end Bound

namespace Suits

variable {g : Bounds ℝ} {shape : List ℕ} (suits : g.Suits shape) {x : Tensor ℝ}
include suits

/-- The test for states tells whether their entries are between the limits. -/
lemma exists_outside (x_shape : x.shape = shape) :
    ∃ b, g.outside x = .ok b ∧
      (b = false ↔ Within (limits g.lower shape) (limits g.upper shape) x.entries) := by
  obtain ⟨v, below, v_iff⟩ := violates_eq_ok suits.lower (fun a b => decide (a < b)) x_shape
  obtain ⟨w, above, w_iff⟩ := violates_eq_ok suits.upper (fun a b => decide (b < a)) x_shape
  refine ⟨v || w, ?_, ?_⟩
  · unfold outside
    rw [below, ok_bind]
    cases v with
    | true => rfl
    | false => exact above
  · rw [Bool.or_eq_false_iff, v_iff, w_iff]
    simp only [decide_eq_false_iff_not, not_lt]
    exact ⟨fun ⟨lower, upper⟩ => ⟨lower, upper⟩, fun within => ⟨within.lower, within.upper⟩⟩

theorem contains_iff (x_shape : x.shape = shape) :
    g.Contains x ↔ Within (limits g.lower shape) (limits g.upper shape) x.entries := by
  obtain ⟨b, outside, b_iff⟩ := suits.exists_outside x_shape
  rw [Contains, outside, Except.ok.injEq, b_iff]

/-- The clamp leads inside the bounds. -/
theorem exists_clamped (x_shape : x.shape = shape) :
    ∃ y, g.clamp x = .ok y ∧ y.shape = shape ∧ g.Contains y := by
  obtain ⟨y, raised, y_shape, y_entries⟩ := exists_clampTo suits.lower Scalar.max x_shape
  obtain ⟨z, lowered, z_shape, z_entries⟩ := exists_clampTo suits.upper Scalar.min y_shape
  -- The clamp raises first and lowers afterwards. That it does not lower below the lower limit
  -- again is where the limits have to be in order.
  have above : ∀ l ∈ limits g.lower shape, Entrywise (fun a b => b ≤ a) y.entries l := by
    intro l mem i a b at_a at_b
    rw [y_entries, mem] at at_a
    obtain ⟨x, b', -, at_b', rfl⟩ := List.getElem?_zipWith_eq_some.mp at_a
    obtain rfl : b = b' := Option.some.inj (at_b.symm.trans at_b')
    rw [Scalar.max_real]
    exact le_max_right x b
  refine ⟨z, ?_, z_shape, (suits.contains_iff z_shape).mpr ⟨?_, ?_⟩⟩
  · rw [clamp, raised, ok_bind, lowered]
  · intro l mem i a b at_a at_b
    rw [z_entries] at at_a
    cases high : limits g.upper shape with
    | none =>
      rw [high] at at_a
      exact above l mem i a b at_a at_b
    | some h =>
      rw [high] at at_a
      obtain ⟨y, c, at_y, at_c, rfl⟩ := List.getElem?_zipWith_eq_some.mp at_a
      rw [Scalar.min_real]
      exact le_min (above l mem i y b at_y at_b) (suits.le l mem h high i b c at_b at_c)
  · intro h mem i a c at_a at_c
    rw [z_entries, mem] at at_a
    obtain ⟨y, c', -, at_c', rfl⟩ := List.getElem?_zipWith_eq_some.mp at_a
    obtain rfl : c = c' := Option.some.inj (at_c.symm.trans at_c')
    rw [Scalar.min_real]
    exact min_le_right y c

/-- The clamp leaves a state inside the bounds as it is. -/
theorem clamp_eq_self (x_shape : x.shape = shape) (full : x.Full) (contains : g.Contains x) :
    g.clamp x = .ok x := by
  have within := (suits.contains_iff x_shape).mp contains
  have raised : clampTo Scalar.max x g.lower = .ok x := by
    apply clampTo_eq_self suits.lower x_shape full
    intro l mem i a b at_a at_b
    rw [Scalar.max_real]
    exact max_eq_left (within.lower l mem i a b at_a at_b)
  have lowered : clampTo Scalar.min x g.upper = .ok x := by
    apply clampTo_eq_self suits.upper x_shape full
    intro h mem i a b at_a at_b
    rw [Scalar.min_real]
    exact min_eq_left (within.upper h mem i a b at_a at_b)
  rw [clamp, raised, ok_bind, lowered]

end Suits

namespace HasLimits

variable {g : Bounds ℝ} {low high : Option (Vec ℝ)} (hasLimits : g.HasLimits n low high)
  {x : Tensor ℝ}
include hasLimits

omit hasLimits in
lemma limits_eq {bound : Option (Tensor ℝ)} {l : Option (Vec ℝ)}
    (rel : Option.Rel (IsBound n) bound l) : limits bound [n] = l := by
  cases rel with
  | none => rfl
  | some bound => exact congrArg some bound.spreadTo

omit hasLimits in
lemma spreadsOver {bound : Option (Tensor ℝ)} {l : Option (Vec ℝ)}
    (rel : Option.Rel (IsBound n) bound l) : ∀ b ∈ bound, b.SpreadsOver [n] := by
  rintro b ⟨rfl⟩
  cases rel with
  | some bound => exact bound.spreadsOver

lemma suits : g.Suits [n] where
  lower := spreadsOver hasLimits.lower
  upper := spreadsOver hasLimits.upper
  le := by
    rw [limits_eq hasLimits.lower, limits_eq hasLimits.upper]
    exact hasLimits.le

theorem contains_iff (shape : x.shape = [n]) : g.Contains x ↔ Within low high x.entries := by
  rw [hasLimits.suits.contains_iff shape, limits_eq hasLimits.lower, limits_eq hasLimits.upper]

end HasLimits

/-! ### Steps -/

/-- The step leads to a state inside the bounds. -/
def Allows (g : Bounds ℝ) (x dx : Tensor ℝ) : Prop :=
  ∃ y, Tensor.combine (· - ·) x dx = .ok y ∧ g.Contains y

/-- Every part of the step leads from `x` to a state of the same shape, with the entries `ds` taken
off in this part. -/
def Moves (x dx : Tensor ℝ) (ds : Vec ℝ) : Prop :=
  ∀ c : ℝ, Tensor.combine (· - ·) x (dx.smul c)
    = .ok ⟨x.shape, List.zipWith (· - ·) x.entries (Vec.smul c ds)⟩

lemma moves_of_shape_eq {x dx : Tensor ℝ} (same : x.shape = dx.shape) : Moves x dx dx.entries := by
  intro c
  have scaled : x.shape = (dx.smul c).shape := same
  exact Tensor.combine_of_shape_eq _ scaled

lemma moves_of_spreadsOver {x dx : Tensor ℝ} (spreads : dx.SpreadsOver x.shape) :
    Moves x dx (dx.spreadTo x.shape) := by
  intro c
  have scaled : (dx.smul c).SpreadsOver x.shape := spreads.map _
  rw [Tensor.combine_of_spreadsOver _ rfl scaled, Tensor.smul, Tensor.spreadTo_map]
  rfl

/-- A part of a step moves as the step does. -/
lemma Moves.smul {x dx : Tensor ℝ} {ds : Vec ℝ} (moves : Moves x dx ds) (a : ℝ) :
    Moves x (dx.smul a) (Vec.smul a ds) := by
  intro c
  rw [Tensor.smul_smul, moves]
  simp [Vec.smul, mul_assoc]

section Moved

variable {g : Bounds ℝ} {x dx z : Tensor ℝ} {ds : Vec ℝ} {c : ℝ} (suits : g.Suits x.shape)
  (moves : Moves x dx ds)
include suits moves

lemma Suits.allows_smul_iff : g.Allows x (dx.smul c) ↔
    Within (limits g.lower x.shape) (limits g.upper x.shape)
      (List.zipWith (· - ·) x.entries (Vec.smul c ds)) := by
  simp only [Allows, moves c, Except.ok.injEq, exists_eq_left']
  exact suits.contains_iff rfl

lemma Suits.allows_iff : g.Allows x dx ↔
    Within (limits g.lower x.shape) (limits g.upper x.shape)
      (List.zipWith (· - ·) x.entries ds) := by
  have whole := suits.allows_smul_iff moves (c := 1)
  rwa [Tensor.smul_one, show Vec.smul 1 ds = ds by simp [Vec.smul]] at whole

/-- From a state inside the bounds, a part of a step to another one leads to such a state. -/
theorem Suits.allows_smul (contains : g.Contains x) (allows : g.Allows x dx) (nonneg : 0 ≤ c)
    (le_one : c ≤ 1) : g.Allows x (dx.smul c) := by
  rw [suits.contains_iff rfl] at contains
  rw [suits.allows_iff moves] at allows
  rw [suits.allows_smul_iff moves]
  exact contains.sub_smul allows nonneg le_one

end Moved

/-- A part of a step from a state inside the bounds to another one leads to such a state. -/
lemma HasLimits.contains_of_allows {g : Bounds ℝ} {low high : Option (Vec ℝ)} {x z dx : Tensor ℝ}
    {c : ℝ} (limits : g.HasLimits n low high) (x_shape : x.shape = [n]) (dx_shape : dx.shape = [n])
    (contains : g.Contains x) (allows : g.Allows x dx) (nonneg : 0 ≤ c) (le_one : c ≤ 1)
    (moved : Tensor.combine (· - ·) x (dx.smul c) = .ok z) : g.Contains z := by
  have suits := limits.suits
  rw [← x_shape] at suits
  have moves := moves_of_shape_eq (x_shape.trans dx_shape.symm)
  obtain ⟨y, reached, inside⟩ := suits.allows_smul moves contains allows nonneg le_one
  obtain rfl : y = z := Except.ok.inj (reached.symm.trans moved)
  exact inside

/-! ### Shortened steps -/

/-- What becomes of a step that is shortened at most `m` times: a multiple of it by a power of the
factor. No power before this one leads to a state inside the bounds, and this one does unless it is
the last. -/
theorem exists_shortened {g : Bounds ℝ} {x p dx : Tensor ℝ} {m : ℕ}
    (short : g.shorten x m p = .ok dx) :
    ∃ j ≤ m, dx = p.smul (g.relax ^ j) ∧ (∀ i < j, ¬ g.Allows x (p.smul (g.relax ^ i))) ∧
      (j < m → g.Allows x dx) := by
  -- By induction on the relaxations that are left, over all steps. One relaxation multiplies the
  -- step by the factor once more.
  induction m generalizing p with
  | zero =>
    cases short
    exact ⟨0, le_rfl, by rw [pow_zero, Tensor.smul_one], by simp, by simp⟩
  | succ m ih =>
    obtain ⟨y, moved, short⟩ := bind_eq_ok.mp short
    obtain ⟨outside, test, short⟩ := bind_eq_ok.mp short
    cases outside with
    | false =>
      cases short
      exact ⟨0, Nat.zero_le _, by rw [pow_zero, Tensor.smul_one], by simp,
        fun _ => ⟨y, moved, test⟩⟩
    | true =>
      obtain ⟨j, le, rfl, outside, inside⟩ := ih (p := p.smul g.relax) short
      refine ⟨j + 1, Nat.succ_le_succ le, ?_, ?_, fun lt => inside (Nat.lt_of_succ_lt_succ lt)⟩
      · rw [Tensor.smul_smul, pow_succ]
      · intro i below
        cases i with
        | zero =>
          rintro ⟨y', moved', contains⟩
          rw [pow_zero, Tensor.smul_one, moved, Except.ok.injEq] at moved'
          rw [← moved', Contains, test] at contains
          cases contains
        | succ i =>
          have earlier := outside i (Nat.lt_of_succ_lt_succ below)
          rwa [Tensor.smul_smul, ← pow_succ] at earlier

/-! ### Numbers that are not negative -/

/-- The bound zero, with the usual factor and number of trials. -/
def nonnegative {α : Type} [Scalar α] : Bounds α where
  lower := some (.ofScalar 0)
  relax := Scalar.half
  maxRelax := 60

lemma not_lt_of_contains {α : Type} [Scalar α] {a : α}
    (contains : nonnegative.Contains (.ofVec [a])) : ¬ a < 0 := by
  intro negative
  have below : violates (fun a b => decide (a < b)) (.ofVec [a]) (some (.ofScalar 0))
      = .ok (decide (a < 0) || false) := rfl
  unfold Contains outside at contains
  change (violates _ _ (some (.ofScalar 0)) >>= _) = _ at contains
  rw [below, decide_eq_true negative] at contains
  cases contains

lemma hasLimits_nonnegative (n : ℕ) :
    nonnegative.HasLimits n (some (List.replicate n (0 : ℝ))) none :=
  ⟨.some (.number 0), .none, by simp⟩

end Bounds

end NewtonKrylov
