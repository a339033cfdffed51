import NewtonKrylov.Proofs.Arena.View

/-!
# Calls on an arena

An arena is used by calls of its methods, in any order, and each of them may be refused. `Call.on`
says what a call does to a factorization, and by `perform_toArena` the call on the arena does the
same. Every call is followed by a `Session`, which notes the columns that were folded in since the
last reset: `Session.Tracks` says that the arena is that of the factorization of these columns, and
every call keeps this up. So what a sequence of calls can do to an arena is read off the
factorization of some columns.
-/

namespace NewtonKrylov

open Vec Reflection Factorization

variable {α : Type} [Scalar α] {n m : ℕ}

namespace Factorization

/-! ### The factorization of given columns -/

/-- The factorization of a list of columns of length `n`, with room for `m`. -/
def collect (n m : ℕ) (columns : List (Vec α)) : Factorization α :=
  columns.foldl push (empty n m)

@[simp] lemma collect_concat (vs : List (Vec α)) (v : Vec α) :
    collect n m (vs ++ [v]) = (collect n m vs).push v := by
  simp [collect]

@[simp] lemma rows_collect (vs : List (Vec α)) : (collect n m vs).rows = n := by
  induction vs using List.reverseRecOn with
  | nil => rfl
  | append_singleton vs v ih => rw [collect_concat, rows_push, ih]

@[simp] lemma capacity_collect (vs : List (Vec α)) : (collect n m vs).capacity = m := by
  induction vs using List.reverseRecOn with
  | nil => rfl
  | append_singleton vs v ih => rw [collect_concat, capacity_push, ih]

@[simp] lemma size_collect (vs : List (Vec α)) : (collect n m vs).size = vs.length := by
  induction vs using List.reverseRecOn with
  | nil => rfl
  | append_singleton vs v ih => simp [ih]

lemma shaped_collect (fits : m ≤ n) {vs : List (Vec α)} (lengths : ∀ v ∈ vs, v.length = n)
    (room : vs.length ≤ m) : (collect n m vs).Shaped := by
  induction vs using List.reverseRecOn with
  | nil => exact shaped_empty fits
  | append_singleton vs v ih =>
    rw [List.length_append, List.length_singleton] at room
    have before := ih (fun w member => lengths w (List.mem_append_left [v] member)) (by omega)
    rw [collect_concat]
    apply before.push
    · rw [size_collect, capacity_collect]
      omega
    · rw [rows_collect]
      exact lengths v (List.mem_append_right vs List.mem_cons_self)

end Factorization

namespace Arena

/-! ### Calls -/

/-- A call of a method. An array that is passed has as many entries as its shape says. -/
inductive Call (α : Type)
  | extend (column : Tensor α) (full : column.Full)
  | reset
  | column (j : ℤ)
  | orthogonal
  | triangular

/-- What a call answers. -/
inductive Answer (α : Type)
  | count (k : ℕ)
  | done
  | vector (v : Vec α)
  | matrix (A : Rows α)

namespace Call

/-- The call on an arena. -/
def perform : Call α → ArenaM α (Answer α)
  | .extend c _ => do return .count (← Arena.extend c)
  | .reset => do
    Arena.reset
    return .done
  | .column j => do return .vector (← (← get).column j)
  | .orthogonal => do return .matrix (← get).orthogonal
  | .triangular => do return .matrix (← get).triangular

/-- The call on a factorization, with the factorization after it. -/
def on (f : Factorization α) : Call α → Except Error (Answer α × Factorization α)
  | .extend c _ => (f.extend c).map fun g => (.count g.size, g)
  | .reset => .ok (.done, f.reset)
  | .column j => (f.column? j).map fun q => (.vector q, f)
  | .orthogonal => .ok (.matrix f.orthogonal, f)
  | .triangular => .ok (.matrix f.triangular, f)

/-- The error that a call raises: a column for which there is no room or that has the wrong shape,
and the index of a column that is not there. -/
def refusal (a : Arena α) : Call α → Option Error
  | .extend c _ =>
    if a.capacity ≤ a.size then some (.factorizationFull a.capacity)
    else if c.shape = [a.rows] then none
    else some (.columnShape a.rows c.shape)
  | .column j => if 0 ≤ j ∧ j < a.size then none else some (.columnUnavailable j a.size)
  | .reset | .orthogonal | .triangular => none

/-- A call on the arena of a factorization does what the call on the factorization does, and leaves
the arena as it is where this fails. -/
theorem perform_toArena {f : Factorization α} (shaped : f.Shaped) (call : Call α) :
    call.perform.run f.toArena = match call.on f with
      | .ok (answer, g) => (.ok answer, g.toArena)
      | .error e => (.error e, f.toArena) := by
  cases call with
  | extend c _ =>
    have run := shaped.extend_run c
    rw [perform, on]
    cases extended : f.extend c with
    | ok g =>
      rw [extended] at run
      rw [run_bind_of_ok run]
      rfl
    | error e =>
      rw [extended] at run
      rw [run_bind_of_error run]
      rfl
  | reset =>
    rw [perform, run_bind_of_ok shaped.reset_run]
    rfl
  | column j =>
    rw [perform, run_get_bind, shaped.column_toArena, on]
    cases f.column? j <;> rfl
  | orthogonal =>
    rw [perform, run_get_bind, shaped.orthogonal_toArena]
    rfl
  | triangular =>
    rw [perform, run_get_bind, shaped.triangular_toArena]
    rfl

/-- The calls that are refused, with their errors. -/
lemma on_eq_error_iff {f : Factorization α} (call : Call α) (e : Error) :
    call.on f = .error e ↔ call.refusal f.toArena = some e := by
  cases call with
  | extend c _ =>
    rw [on, refusal, map_eq_error, Factorization.extend, rows_toArena, capacity_toArena,
      size_toArena]
    split_ifs <;> simp
  | column j =>
    rw [on, refusal, map_eq_error, column?, size_toArena]
    split_ifs <;> simp
  | reset | orthogonal | triangular => simp [on, refusal]

end Call

/-! ### Sessions -/

/-- An arena, and the columns that were folded in since its last reset. -/
structure Session (α : Type) where
  arena : Arena α
  fed : List (Vec α)

namespace Session

/-- The columns after a call with a given result. -/
def feed (fed : List (Vec α)) : Call α → Except Error (Answer α) → List (Vec α)
  | .extend c _, .ok _ => fed ++ [c.entries]
  | .reset, .ok _ => []
  | _, _ => fed

/-- Make a call. -/
def after (s : Session α) (call : Call α) : Session α where
  arena := (call.perform.run s.arena).2
  fed := feed s.fed call (call.perform.run s.arena).1

/-- Make calls, one after the other, on an arena that has not been used. -/
def run (fresh : Arena α) (calls : List (Call α)) : Session α := calls.foldl after ⟨fresh, []⟩

/-- The arena is that of the factorization of the columns. -/
structure Tracks (n m : ℕ) (s : Session α) : Prop where
  arena : s.arena = (collect n m s.fed).toArena
  lengths : ∀ v ∈ s.fed, v.length = n
  room : s.fed.length ≤ m

lemma tracks_blank (n m : ℕ) : Tracks n m (⟨blank n m, []⟩ : Session α) where
  arena := toArena_empty n m
  lengths := by simp
  room := Nat.zero_le m

omit [Scalar α] in
lemma feed_error (fed : List (Vec α)) (call : Call α) (e : Error) :
    feed fed call (.error e) = fed := by
  cases call <;> rfl

namespace Tracks

variable {s : Session α} (tracks : Tracks n m s)
include tracks

lemma shaped (fits : m ≤ n) : (collect n m s.fed).Shaped :=
  shaped_collect fits tracks.lengths tracks.room

lemma perform_run (fits : m ≤ n) (call : Call α) :
    call.perform.run s.arena = match call.on (collect n m s.fed) with
      | .ok (answer, g) => (.ok answer, g.toArena)
      | .error e => (.error e, s.arena) := by
  rw [tracks.arena]
  exact call.perform_toArena (tracks.shaped fits)

/-- A call is refused with its error and changes nothing, or it has an answer. -/
lemma perform_of_refusal (fits : m ≤ n) (call : Call α) : match call.refusal s.arena with
    | some e => call.perform.run s.arena = (.error e, s.arena)
    | none => ∃ answer b, call.perform.run s.arena = (.ok answer, b) := by
  have run := tracks.perform_run fits call
  have refused := call.on_eq_error_iff (f := collect n m s.fed)
  rw [← tracks.arena] at refused
  -- The list of columns only changes where the call has an answer.
  cases outcome : call.on (collect n m s.fed) with
  | error e => rw [(refused e).mp outcome, run, outcome]
  | ok result =>
    have none : call.refusal s.arena = none := by
      rw [Option.eq_none_iff_forall_ne_some]
      intro e some
      rw [(refused e).mpr some] at outcome
      cases outcome
    rw [none, run, outcome]
    exact ⟨_, _, rfl⟩

/-- A column that is folded in has the right length and finds room. -/
lemma extend {c : Tensor α} (full : c.Full) {g : Factorization α}
    (extended : (collect n m s.fed).extend c = .ok g) :
    Tracks n m ⟨g.toArena, s.fed ++ [c.entries]⟩ := by
  rw [extend_eq_ok_iff, size_collect, capacity_collect, rows_collect] at extended
  obtain ⟨room, shape, rfl⟩ := extended
  refine ⟨by rw [collect_concat], ?_, by simpa using room⟩
  intro v member
  rcases List.mem_append.mp member with old | new
  · exact tracks.lengths v old
  · rw [List.mem_singleton.mp new, full, shape]
    simp [Tensor.count]

/-- Every call keeps up with the columns. -/
lemma after (fits : m ≤ n) (call : Call α) : Tracks n m (s.after call) := by
  have run := tracks.perform_run fits call
  cases outcome : call.on (collect n m s.fed) with
  | error e =>
    have unchanged : s.after call = s := by
      rw [Session.after, run, outcome, feed_error]
    rwa [unchanged]
  | ok result =>
    obtain ⟨answer, g⟩ := result
    have next : s.after call = ⟨g.toArena, feed s.fed call (.ok answer)⟩ := by
      rw [Session.after, run, outcome]
    rw [next]
    cases call with
    | extend c full =>
      obtain ⟨_, extended, pair⟩ := map_eq_ok.mp outcome
      obtain ⟨rfl, rfl⟩ := Prod.mk.inj pair
      exact tracks.extend full extended
    | reset =>
      obtain ⟨rfl, rfl⟩ := Prod.mk.inj (Except.ok.inj outcome)
      rw [Factorization.reset, rows_collect, capacity_collect, toArena_empty]
      exact tracks_blank n m
    | column j =>
      obtain ⟨_, _, pair⟩ := map_eq_ok.mp outcome
      obtain ⟨rfl, rfl⟩ := Prod.mk.inj pair
      exact ⟨rfl, tracks.lengths, tracks.room⟩
    | orthogonal | triangular =>
      obtain ⟨rfl, rfl⟩ := Prod.mk.inj (Except.ok.inj outcome)
      exact ⟨rfl, tracks.lengths, tracks.room⟩

end Tracks

/-- Every sequence of calls keeps up with the columns. -/
theorem tracks_run (fits : m ≤ n) (calls : List (Call α)) : Tracks n m (run (blank n m) calls) := by
  -- By induction on the calls, from any session that keeps up.
  have all (s : Session α) (tracks : Tracks n m s) : Tracks n m (calls.foldl Session.after s) := by
    induction calls generalizing s with
    | nil => exact tracks
    | cons call calls ih => exact ih (s.after call) (tracks.after fits call)
  exact all _ (tracks_blank n m)

end Session

/-! ### What calls keep up -/

/-- Of an arena with `m` columns of length `n`, `k` columns are in use. The others are zero, and so
is a reflector in the rows above its own. -/
structure Intact (n m k : ℕ) (a : Arena α) : Prop where
  dimensions : a.rows = n ∧ a.capacity = m
  size : a.size = k
  size_le : k ≤ m
  reflectors : a.reflectors.length = m ∧ ∀ c ∈ a.reflectors, c.length = n
  columns : a.columns.length = m ∧ ∀ c ∈ a.columns, c.length = n
  unused : ∀ j, k ≤ j → j < m →
    a.reflectors.getD j [] = zeros n ∧ a.columns.getD j [] = zeros n
  above : ∀ i j, i < j → j < m → (a.reflectors.getD j [])[i]? = some 0

/-- The arena of a factorization is intact. -/
lemma intact_toArena {f : Factorization α} (shaped : f.Shaped) :
    Intact f.rows f.capacity f.size f.toArena := by
  obtain ⟨room_reflectors, room_columns⟩ := shaped.fits
  have unused (j : ℕ) (behind : f.size ≤ j) (inside : j < f.capacity) :
      f.toArena.reflectors.getD j [] = zeros f.rows ∧
        f.toArena.columns.getD j [] = zeros f.rows := by
    constructor
    · exact getD_fillUp_of_le _ (by rwa [length_reflectorColumns]) inside _
    · exact getD_fillUp_of_le _ (by rwa [shaped.count]) inside _
  refine ⟨⟨rfl, rfl⟩, rfl, shaped.size_le,
    ⟨length_fillUp _ room_reflectors, ?_⟩, ⟨length_fillUp _ room_columns, ?_⟩, unused, ?_⟩
  · intro c member
    exact length_of_mem_fillUp (fun _ => shaped.length_of_mem_reflectorColumns) member
  · intro c member
    exact length_of_mem_fillUp shaped.lengths member
  · intro i j above inside
    by_cases used : j < f.size
    · rw [f.getD_reflectors_toArena used, List.getElem?_append_left (by simpa using above)]
      simp [zeros, above]
    · have row : i < f.rows := above.trans (inside.trans_le shaped.capacity_le)
      rw [(unused j (by omega) inside).1]
      simp [zeros, row]

/-- However an arena is used, the columns in use are those folded in since the last reset, and the
arena stays intact. A call that is refused leaves it as it is, and a reset makes it the arena it was
at first. -/
theorem intact_after_calls (fits : m ≤ n) :
    ∃ fresh : Arena α, create n m = .ok fresh ∧ ∀ calls : List (Call α),
      Intact n m (Session.run fresh calls).fed.length (Session.run fresh calls).arena ∧
      (∀ call : Call α, match call.refusal (Session.run fresh calls).arena with
        | some e =>
          call.perform.run (Session.run fresh calls).arena
            = (.error e, (Session.run fresh calls).arena)
        | none =>
          ∃ answer b, call.perform.run (Session.run fresh calls).arena = (.ok answer, b)) ∧
      Arena.reset.run (Session.run fresh calls).arena = (.ok (), fresh) := by
  refine ⟨blank n m, ?_, ?_⟩
  · rw [create, if_neg (by omega), if_neg (by omega), Int.toNat_natCast, Int.toNat_natCast]
  intro calls
  have tracks := Session.tracks_run fits calls
  generalize Session.run (blank n m) calls = s at tracks ⊢
  have shaped := tracks.shaped fits
  refine ⟨?_, ?_, ?_⟩
  · have intact := intact_toArena shaped
    rwa [rows_collect, capacity_collect, size_collect, ← tracks.arena] at intact
  · exact fun call => tracks.perform_of_refusal fits call
  · have emptied := shaped.reset_run
    rwa [← tracks.arena, Factorization.reset, rows_collect, capacity_collect, toArena_empty]
      at emptied

/-- An arena with one column of length two, after a column with an entry that is no number, a column
too many, a call for a column that is not there, and a number in place of a column. -/
theorem intact_after_calls_refused :
    ∃ fresh a : Arena Float, create 2 1 = .ok fresh ∧
      (Session.run fresh [.extend (Tensor.ofVec [1, 0 / 0]) rfl, .extend (Tensor.ofVec [3, 4]) rfl,
        .column 1, .extend (Tensor.ofScalar 5) rfl]).arena = a ∧
      Intact 2 1 1 a ∧
      (Call.extend (Tensor.ofVec [3, 4]) rfl).perform.run a = (.error (.factorizationFull 1), a) ∧
      Arena.reset.run a = (.ok (), fresh) := by
  obtain ⟨fresh, created, used⟩ := intact_after_calls (α := Float) (n := 2) (m := 1) (by decide)
  obtain ⟨intact, calls, emptied⟩ := used [.extend (Tensor.ofVec [1, 0 / 0]) rfl,
    .extend (Tensor.ofVec [3, 4]) rfl, .column 1, .extend (Tensor.ofScalar 5) rfl]
  obtain rfl : blank 2 1 = fresh := Except.ok.inj created
  refine ⟨_, _, created, rfl, intact, ?_, emptied⟩
  exact calls (.extend (Tensor.ofVec [3, 4]) rfl)

end Arena

end NewtonKrylov
