import NewtonKrylov.Krylov.Arrays
import NewtonKrylov.Proofs.Arena.View
import NewtonKrylov.Proofs.Krylov.Reuse
import NewtonKrylov.Proofs.Spreading

/-!
# Cycles in place

A work space is made of lists that grow. Its arrays have what is in these lists in their first
places, and zeros behind. `toArrays` writes it there, and by `run_inPlace` a cycle on the arrays
comes to what the cycle on the lists comes to, and leaves the arrays of what that one leaves, also
where it fails. So what is known of work spaces that are used again holds of arrays that are written
over again and again: this is `arrays_after_uses`.

The view asks for sizes alone, which a step that is given up half way keeps as well (`Shaped`).
Where a step writes depends on how many have gone through before it (`Ready`).

Nothing here depends on the arithmetic.
-/

namespace NewtonKrylov

open Vec

variable {α : Type} [Scalar α]

namespace Workspace

/-! ### Sizes -/

/-- The parts of a work space fit into its arrays. -/
structure Shaped (ws : Workspace α) : Prop where
  directions : ∀ z ∈ ws.directions, z.length = ws.dimension
  basis_le : ws.basis.length ≤ ws.capacity
  coefficients_le : ws.coefficients.length ≤ ws.capacity
  factorization : ws.factorization.Shaped
  rows : ws.factorization.rows = ws.dimension
  capacity : ws.factorization.capacity = ws.capacity

omit [Scalar α] in
lemma shaped_empty {n m : ℕ} (fits : m ≤ n) : (empty n m : Workspace α).Shaped where
  directions := by simp [empty, directions]
  basis_le := Nat.zero_le m
  coefficients_le := Nat.zero_le m
  factorization := Factorization.shaped_empty fits
  rows := rfl
  capacity := rfl

omit [Scalar α] in
@[simp] lemma length_directions (ws : Workspace α) : ws.directions.length = ws.basis.length :=
  List.length_map _

namespace Shaped

variable {ws : Workspace α} (shaped : ws.Shaped)
include shaped

omit [Scalar α] in
lemma capacity_le : ws.capacity ≤ ws.dimension := by
  rw [← shaped.capacity, ← shaped.rows]
  exact shaped.factorization.capacity_le

omit [Scalar α] in
lemma reset : ws.reset.Shaped := shaped_empty shaped.capacity_le

omit [Scalar α] in
lemma record (room : ws.basis.length < ws.capacity) (choice : DirectionSource) {z : Vec α}
    (length : z.length = ws.dimension) : (ws.record choice z).Shaped where
  directions := by
    rw [directions_record]
    intro v member
    rcases List.mem_append.mp member with old | new
    · exact shaped.directions v old
    · rw [List.mem_singleton.mp new, length]
      rfl
  basis_le := by
    rw [Workspace.record, List.length_append]
    exact room
  coefficients_le := shaped.coefficients_le
  factorization := shaped.factorization
  rows := shaped.rows
  capacity := shaped.capacity

lemma extend {image : Tensor α} (full : image.Full) {f : Factorization α}
    (extended : ws.factorization.extend image = .ok f) : { ws with factorization := f }.Shaped := by
  obtain ⟨room, shape, rfl⟩ := (Factorization.extend_eq_ok_iff _ _ _).mp extended
  have length : image.entries.length = ws.factorization.rows := by
    rw [full, shape]
    simp
  exact { shaped with factorization := shaped.factorization.push room length }

omit [Scalar α] in
lemma addCoefficient (room : ws.coefficients.length < ws.capacity) (c : α) :
    { ws with coefficients := ws.coefficients ++ [c] }.Shaped :=
  { shaped with
    coefficients_le := by
      rw [List.length_append]
      exact room }

end Shaped

/-! ### The arrays of a work space -/

/-- The work space in place. -/
def toArrays (ws : Workspace α) : Arrays α where
  dimension := ws.dimension
  capacity := ws.capacity
  directions := fillUp ws.capacity (zeros ws.dimension) ws.directions
  choices := ws.choices
  coefficients := fillUp ws.capacity 0 ws.coefficients
  arena := ws.factorization.toArena

lemma create_toArrays (n m : ℤ) :
    Arrays.create n m = (Workspace.create n m : Except Error (Workspace α)).map toArrays := by
  unfold Arrays.create Workspace.create
  simp only
  split_ifs <;> rfl

/-- The matrix of directions and the vector of coefficients are those of the work space. -/
lemma ofColumns_toArrays (ws : Workspace α) :
    Rows.ofColumns ws.dimension ws.toArrays.directions = ws.directionArena ∧
      ws.toArrays.coefficients = ws.coefficientArena := by
  refine ⟨?_, rfl⟩
  rw [toArrays, fillUp, length_directions, directionArena]

variable {ws : Workspace α} {k : ℕ}

lemma take_directions (used : ws.basis.length = k) :
    ws.toArrays.directions.take k = ws.directions :=
  List.take_left' (by rw [length_directions, used])

lemma take_coefficients (used : ws.coefficients.length = k) :
    ws.toArrays.coefficients.take k = ws.coefficients :=
  List.take_left' used

/-- A direction is written into the first free column. -/
lemma record_toArrays (used : ws.basis.length = k) (room : k < ws.capacity)
    (choice : DirectionSource) (z : Vec α) :
    ws.toArrays.record k choice z = (ws.record choice z).toArrays := by
  have free : ws.directions.length < ws.capacity := by rwa [length_directions, used]
  have written := set_fillUp (zeros ws.dimension) free z
  rw [length_directions, used, ← directions_record ws choice z] at written
  rw [Arrays.record, toArrays, toArrays, choices_record]
  exact congrArg (fun columns => Arrays.mk _ _ columns _ _ _) written

/-- A coefficient is written into the first free place. -/
lemma set_toArrays (used : ws.coefficients.length = k) (room : k < ws.capacity) (c : α) :
    { ws.toArrays with coefficients := ws.toArrays.coefficients.set k c }
      = { ws with coefficients := ws.coefficients ++ [c] }.toArrays := by
  subst used
  exact congrArg (fun entries => Arrays.mk _ _ _ _ entries _) (set_fillUp 0 room c)

end Workspace

namespace Arrays

open Workspace

/-! ### Computations on the arena -/

/-- The last column is the one that step `k` asks for. -/
lemma column_last {f : Factorization α} {k : ℕ} (shaped : f.Shaped) (size : f.size = k + 1) :
    f.toArena.column k = .ok (f.column (f.size - 1)) := by
  rw [shaped.column_toArena, Factorization.column?_eq_ok_iff, size]
  exact ⟨Int.natCast_nonneg k, by omega, rfl⟩

omit [Scalar α] in
lemma onArena_run {β : Type} {m : Arena.ArenaM α β} {a : Arrays α} {result : Except Error β}
    {after : Arena α} (run : m.run a.arena = (result, after)) :
    (onArena m).run a = (result, { a with arena := after }) := by
  change ((m.run a.arena).1, { a with arena := (m.run a.arena).2 }) = _
  rw [run]

variable {ws : Workspace α} (shaped : ws.Shaped)
include shaped

/-- Zeros everywhere are the arrays of the empty work space. -/
theorem reset_toArrays : reset.run ws.toArrays = (.ok (), ws.reset.toArrays) := by
  have directions := map_zero_fillUp (m := ws.capacity) (by simpa using shaped.basis_le)
    shaped.directions
  have coefficients : (fillUp ws.capacity 0 ws.coefficients).map (fun _ => (0 : α))
      = fillUp ws.capacity 0 [] := by
    rw [List.map_const', length_fillUp _ shaped.coefficients_le]
    rfl
  have arena : ws.factorization.reset = .empty ws.dimension ws.capacity := by
    rw [Factorization.reset, shaped.rows, shaped.capacity]
  rw [reset, run_modify_bind, run_bind_of_ok (onArena_run shaped.factorization.reset_run), arena]
  have written : ws.reset.toArrays = ⟨ws.dimension, ws.capacity,
      fillUp ws.capacity (zeros ws.dimension) [], [], fillUp ws.capacity 0 [],
      (Factorization.empty ws.dimension ws.capacity).toArena⟩ := rfl
  rw [written, ← directions, ← coefficients]
  rfl

/-- An image is folded into the arena as it is folded into the factorization. -/
lemma extend_mirrors {β δ : Type} {g : β → δ} {image : Tensor α}
    {k : Factorization α → PUnit → Cycle.CycleM α β} {k' : ℕ → ArraysM α δ}
    (rest : ∀ f, ws.factorization.extend image = .ok f →
      Mirrors g toArrays (k f ⟨⟩) (k' f.size) { ws with factorization := f }) :
    Mirrors g toArrays
      (liftM (ws.factorization.extend image) >>= fun f =>
        modify (fun ws => { ws with factorization := f }) >>= k f)
      (onArena (Arena.extend image) >>= k') ws := by
  have extended := shaped.factorization.extend_run image
  cases result : ws.factorization.extend image with
  | ok f =>
    rw [result] at extended
    have run : (onArena (Arena.extend image)).run ws.toArrays
        = (.ok f.size, { ws with factorization := f }.toArrays) := onArena_run extended
    unfold Mirrors at rest ⊢
    rw [run_bind_of_ok run, rest f result]
    rfl
  | error e =>
    rw [result] at extended
    have run : (onArena (Arena.extend image)).run ws.toArrays = (.error e, ws.toArrays) :=
      onArena_run extended
    unfold Mirrors
    rw [run_bind_of_error run]
    rfl

end Arrays

namespace Cycle

open Workspace

/-! ### Steps -/

/-- A direction has an entry for each place if the residual has. -/
lemma full_nextDirection {ν : Setting α} {p : Progress α} (full : p.residual.Full)
    {next : DirectionSource × Tensor α} (chosen : nextDirection ν p = .ok next) : next.2.Full := by
  have normalized : (p.residual.map (· / p.norm)).Full := Tensor.full_map full _
  unfold nextDirection at chosen
  cases column : p.column with
  | none =>
    rw [column] at chosen
    obtain rfl := Except.ok.inj chosen
    exact normalized
  | some q =>
    rw [column] at chosen
    obtain ⟨ν, -, same⟩ := bind_eq_ok.mp chosen
    obtain rfl := Except.ok.inj same
    cases DirectionSource.after p.norm p.previousNorm ν with
    | residual => exact normalized
    | column => exact Tensor.full_ofVec q

/-- What holds between two steps of a loop, after `k` of them. -/
structure Ready (k : ℕ) (ws : Workspace α) (p : Progress α) : Prop where
  complete : Complete k ws
  shaped : ws.Shaped
  full : p.residual.Full

variable {op : Operator α} {ν tolerance : Setting α} {p : Progress α} {ws : Workspace α} {k : ℕ}
  (gives : GivesFull op)
include gives

/-- A step keeps the sizes also where it is given up. -/
lemma Ready.step_leads (ready : Ready k ws p) (room : k < ws.capacity) :
    Leads (step op ν p) ws
      (fun p' ws' => Ready (k + 1) ws' p' ∧ ws'.capacity = ws.capacity) Shaped := by
  -- The counts are those of a step that has gone through; the sizes have to be followed through
  -- the step, since each of its parts may be the last.
  have counted := (step_stepsTo op ν p ws).mono
    (fun p' ws' next => next.complete ready.complete) fun _ => id
  have sized : Leads (step op ν p) ws
      (fun p' ws' => ws'.Shaped ∧ p'.residual.Full ∧ ws'.capacity = ws.capacity) Shaped := by
    have free : ws.basis.length < ws.capacity := by rwa [ready.complete.basis]
    have place : ws.coefficients.length < ws.capacity := by rwa [ready.complete.coefficients]
    unfold step
    refine .lift_bind ready.shaped fun next chosen => ?_
    rw [leads_bind, leads_get]
    refine .lift_bind ready.shaped fun stored filled => ?_
    have recorded := ready.shaped.record free next.1 (Tensor.length_of_fill filled)
    rw [leads_bind, leads_set]
    refine .lift_bind recorded fun image applied => .lift_bind recorded fun f extended => ?_
    have grown := recorded.extend
      (gives _ _ (full_nextDirection ready.full chosen) applied) extended
    rw [leads_bind, leads_modify]
    refine .lift_bind grown fun product _ => .lift_bind grown fun c _ => ?_
    have finished := grown.addCoefficient place c
    rw [leads_bind, leads_modify]
    refine .lift_bind finished fun r subtracted => ?_
    exact ⟨finished, Tensor.full_combine ready.full (Tensor.full_ofVec _) subtracted, rfl⟩
  refine (sized.and counted).mono ?_ fun _ => id
  rintro p' ws' ⟨⟨shaped, full, same⟩, complete⟩
  exact ⟨⟨complete, shaped, full⟩, same⟩

/-- Step `k` in place writes what the step on the lists adds to them. -/
lemma Ready.step_mirrors (ready : Ready k ws p) (room : k < ws.capacity) :
    Mirrors id toArrays (step op ν p) (Arrays.step op ν k p) ws := by
  have free : ws.basis.length < ws.capacity := by rwa [ready.complete.basis]
  unfold step Arrays.step
  refine .same_bind fun next chosen => .get_bind (.same_bind fun stored filled => ?_)
  have recorded := ready.shaped.record free next.1 (Tensor.length_of_fill filled)
  refine .set_bind (record_toArrays ready.complete.basis room next.1 stored)
    (.same_bind fun image applied => Arrays.extend_mirrors recorded fun f extended => ?_)
  have grown := recorded.extend (gives _ _ (full_nextDirection ready.full chosen) applied) extended
  -- The column that is asked for by its number is the last one of the list.
  have size : f.size = k + 1 := by
    obtain ⟨-, -, rfl⟩ := (Factorization.extend_eq_ok_iff _ _ _).mp extended
    rw [Factorization.size_push]
    exact congrArg (· + 1) ready.complete.size
  refine .look (.ok_bind (Arrays.column_last grown.factorization size) ?_)
  refine .same_bind fun product _ => .same_bind fun c _ => ?_
  have written := @set_toArrays α _ { ws.record next.1 stored with factorization := f } k
    ready.complete.coefficients room c
  exact .modify_bind written (.same_bind fun r _ => .pure rfl)

/-! ### Cycles -/

/-- The loop keeps the sizes also where it is given up. -/
lemma Ready.iterate_leads {N : ℕ} (ready : Ready k ws p) (room : k + N ≤ ws.capacity) :
    Leads (iterate op ν tolerance N p) ws
      (fun result ws' => Ready (k + result.2.length) ws' result.1) Shaped := by
  induction N generalizing k p ws with
  | zero => exact ready
  | succ N ih =>
    rw [iterate]
    refine (ready.step_leads gives (by omega)).bind ?_
    rintro p' ws' ⟨next, same⟩
    refine .lift_bind next.shaped fun bound _ => ?_
    split_ifs
    · exact next
    · refine (ih next (by omega)).bind fun result ws'' last => ?_
      change Ready (k + (result.2.length + 1)) ws'' result.1
      rwa [Nat.add_comm result.2.length, ← Nat.add_assoc]

/-- The loop in place does what the loop on the lists does. -/
lemma Ready.iterate_mirrors {N : ℕ} (ready : Ready k ws p) (room : k + N ≤ ws.capacity) :
    Mirrors id toArrays (iterate op ν tolerance N p) (Arrays.iterate op ν tolerance k N p) ws := by
  induction N generalizing k p ws with
  | zero => exact .pure rfl
  | succ N ih =>
    rw [iterate, Arrays.iterate]
    refine (ready.step_mirrors gives (by omega)).bind fun p' ws' ran => ?_
    obtain ⟨next, same⟩ := (ready.step_leads gives (by omega)).result ran
    refine .same_bind fun bound _ => ?_
    rw [id]
    split_ifs
    · exact .pure rfl
    · exact (ih next (by omega)).bind fun result ws'' _ => .pure rfl

omit gives [Scalar α] in
lemma Ready.start (shaped : ws.Shaped) {r : Tensor α} (full : r.Full) (norm : α) :
    Ready 0 ws.reset ⟨r, norm, norm, none⟩ :=
  ⟨complete_reset ws, shaped.reset, full⟩

variable {r : Tensor α} (full : r.Full) (norm : α) (maxSteps : ℤ)
variable (ν tolerance)
include full

/-- A cycle keeps the sizes also where it is given up. -/
theorem run_shaped (shaped : ws.Shaped) :
    Leads (run op r norm ν tolerance maxSteps) ws (fun _ => Shaped) Shaped := by
  unfold run
  rw [leads_bind, leads_modify, leads_bind, leads_get]
  extract_lets steps
  split_ifs
  · exact shaped.reset
  · exact shaped.reset
  · have room : 0 + steps ≤ ws.capacity := by
      have same : ws.reset.capacity = ws.capacity := rfl
      omega
    refine ((Ready.start shaped full norm).iterate_leads gives room).bind ?_
    intro result ws' ended
    rw [leads_bind, leads_get]
    exact .lift_bind ended.shaped fun y _ => ended.shaped

/-- The cycles do the same, step by step. -/
lemma run_mirrors (shaped : ws.Shaped) :
    Mirrors id toArrays (run op r norm ν tolerance maxSteps)
      (Arrays.run op r norm ν tolerance maxSteps) ws := by
  unfold run Arrays.run
  -- Whatever an earlier use has left, both cycles begin from nothing.
  have zeroed : Mirrors id toArrays (modify Workspace.reset : CycleM α PUnit) Arrays.reset ws :=
    Arrays.reset_toArrays shaped
  refine zeroed.bind fun _ empty reset => ?_
  obtain rfl : ws.reset = empty := congrArg Prod.snd reset
  refine .get_bind ?_
  extract_lets steps steps'
  rw [show steps' = steps from rfl]
  split_ifs
  · exact .pure rfl
  · exact .pure rfl
  · have start := Ready.start shaped full norm
    have room : 0 + steps ≤ ws.reset.capacity := by omega
    refine (start.iterate_mirrors gives room).bind fun result ws' ran => .get_bind ?_
    have ended := (start.iterate_leads gives room).result ran
    rw [Nat.zero_add] at ended
    obtain ⟨last, norms⟩ := result
    -- The places that are read in the end are those that the steps have written.
    have triangular : ws'.toArrays.arena.triangular = ws'.factorization.triangular :=
      ended.shaped.factorization.triangular_toArena
    simp only [triangular, take_coefficients ended.complete.coefficients,
      take_directions ended.complete.basis]
    exact .same_bind fun y _ => .pure rfl

/-- A cycle in place comes to what the cycle on the lists comes to, and leaves the arrays of what
that one leaves. -/
theorem run_inPlace (shaped : ws.Shaped) :
    (Arrays.run op r norm ν tolerance maxSteps).run ws.toArrays
      = (((run op r norm ν tolerance maxSteps).run ws).1,
        ((run op r norm ν tolerance maxSteps).run ws).2.toArrays) := by
  have mirrors := run_mirrors ν tolerance gives full norm maxSteps shaped
  rw [Mirrors] at mirrors
  rw [mirrors]
  cases ((run op r norm ν tolerance maxSteps).run ws).1 <;> rfl

/-! ### Arrays that are used again -/

/-- The arrays after a use. -/
def Use.leaveArrays (a : Arrays α) : Use α → Arrays α
  | .reset => (Arrays.reset.run a).2
  | .cycle op r norm ν tolerance maxSteps => ((Arrays.run op r norm ν tolerance maxSteps).run a).2

/-- All arrays in a use have an entry for each place. -/
def Use.Full : Use α → Prop
  | .reset => True
  | .cycle op r _ _ _ _ => GivesFull op ∧ r.Full

omit gives full in
/-- A use in place leaves the arrays of what the use leaves, and these fit again. -/
lemma Use.leaveArrays_toArrays (shaped : ws.Shaped) {use : Use α} (full : use.Full) :
    use.leaveArrays ws.toArrays = (use.leave ws).toArrays ∧ (use.leave ws).Shaped := by
  cases use with
  | reset => exact ⟨congrArg Prod.snd (Arrays.reset_toArrays shaped), shaped.reset⟩
  | cycle op r norm ν tolerance maxSteps =>
    obtain ⟨gives, full⟩ := full
    exact ⟨congrArg Prod.snd (run_inPlace ν tolerance gives full norm maxSteps shaped),
      (run_shaped ν tolerance gives full norm maxSteps shaped).state⟩

omit gives full in
lemma foldl_leaveArrays (shaped : ws.Shaped) {uses : List (Use α)} (full : ∀ use ∈ uses, use.Full) :
    uses.foldl Use.leaveArrays ws.toArrays = (uses.foldl Use.leave ws).toArrays ∧
      (uses.foldl Use.leave ws).Shaped := by
  induction uses generalizing ws with
  | nil => exact ⟨rfl, shaped⟩
  | cons use uses ih =>
    obtain ⟨first, others⟩ := List.forall_mem_cons.mp full
    obtain ⟨same, after⟩ := Use.leaveArrays_toArrays shaped first
    rw [List.foldl_cons, List.foldl_cons, same]
    exact ih after others

/-- What a cycle leaves in the arrays that has gone through: something in the first place of each
for every step, and zeros behind. A limit below zero allows as many steps as the limit zero. -/
structure Clean (limit : ℤ) (out : Outcome α) (a : Arrays α) : Prop where
  choices : a.choices.length = out.steps
  size : a.arena.size = out.steps
  history : out.history.length = out.steps
  atMost : (out.steps : ℤ) ≤ max 0 limit
  directions : a.directions.drop out.steps
    = List.replicate (a.capacity - out.steps) (zeros a.dimension)
  coefficients : a.coefficients.drop out.steps = zeros (a.capacity - out.steps)
  reflectors : a.arena.reflectors.drop out.steps
    = List.replicate (a.capacity - out.steps) (zeros a.dimension)
  columns : a.arena.columns.drop out.steps
    = List.replicate (a.capacity - out.steps) (zeros a.dimension)

omit gives full in
lemma Tidy.clean {limit : ℤ} {out : Outcome α} (tidy : Tidy limit out ws) (shaped : ws.Shaped) :
    Clean limit out ws.toArrays := by
  have basis : ws.directions.length = out.steps := by
    rw [← tidy.choices, Workspace.choices, List.length_map, length_directions]
  have reflectors : ws.factorization.reflectorColumns.length = out.steps := by
    rw [Factorization.length_reflectorColumns, tidy.size]
  have columns : ws.factorization.columns.length = out.steps := by
    rw [shaped.factorization.count, tidy.size]
  have used {xs : List (Vec α)} (length : xs.length = out.steps) :
      (fillUp ws.factorization.capacity (zeros ws.factorization.rows) xs).drop out.steps
        = List.replicate (ws.capacity - out.steps) (zeros ws.dimension) := by
    rw [drop_fillUp _ length, shaped.capacity, shaped.rows]
  exact {
    choices := tidy.choices
    size := tidy.size
    history := tidy.history
    atMost := tidy.atMost
    directions := drop_fillUp _ basis
    coefficients := tidy.coefficients
    reflectors := used reflectors
    columns := used columns }

/-- After any uses of the arrays, cycles that failed half way among them, a cycle comes to the same
as on arrays of zeros and leaves the same. If it goes through, it leaves them clean. -/
theorem arrays_after_uses {n m : ℤ} {fresh : Arrays α} (created : Arrays.create n m = .ok fresh)
    {uses : List (Use α)} (arrays : ∀ use ∈ uses, use.Full) :
    (Arrays.run op r norm ν tolerance maxSteps).run (uses.foldl Use.leaveArrays fresh)
        = (Arrays.run op r norm ν tolerance maxSteps).run fresh ∧
      ∀ out a, (Arrays.run op r norm ν tolerance maxSteps).run (uses.foldl Use.leaveArrays fresh)
          = (.ok out, a) →
        Arrays.reset.run a = (.ok (), fresh) ∧ Clean (min maxSteps m) out a := by
  rw [create_toArrays] at created
  cases lists : (Workspace.create n m : Except Error (Workspace α)) with
  | error e => simp [lists, Except.map] at created
  | ok ws =>
    rw [lists] at created
    obtain rfl : ws.toArrays = fresh := Except.ok.inj created
    have shaped : ws.Shaped := by
      obtain ⟨nonneg, -, rfl⟩ := (Workspace.create_eq_ok_iff _ _ _).mp lists
      exact shaped_empty (by omega)
    obtain ⟨same, used⟩ := foldl_leaveArrays shaped arrays
    rw [same, run_inPlace ν tolerance gives full norm maxSteps used, run_foldl_leave,
      run_inPlace ν tolerance gives full norm maxSteps shaped]
    refine ⟨rfl, ?_⟩
    intro out a ran
    obtain ⟨result, rfl⟩ := Prod.ext_iff.mp ran
    obtain ⟨empty, tidy⟩ := tidy_of_created lists (Prod.ext result rfl)
    have after := (run_shaped ν tolerance gives full norm maxSteps shaped).state
    refine ⟨?_, tidy.clean after⟩
    rw [Arrays.reset_toArrays after, empty]

end Cycle

end NewtonKrylov
