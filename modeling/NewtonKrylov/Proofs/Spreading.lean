import Mathlib.Data.List.Forall2
import Mathlib.Data.Nat.Notation
import Mathlib.Tactic.Lemma
import NewtonKrylov.Tensor.Algebra

/-!
# Spreading an array over a shape

Operations of two arrays go through if the sizes agree, where a size of one, and a dimension that is
missing in front, are spread. `SpreadsOver` is the case in which only the second array is spread: an
operation with it keeps the shape of the first, and by `combine_of_spreadsOver` it is the operation
on entries, with the entries of the second array repeated.

What is done to each entry can be done before the entries are repeated or afterwards.
-/

namespace NewtonKrylov

namespace Tensor

variable {α β γ : Type} {shape : List ℕ}

/-! ### Sizes -/

@[simp] lemma count_nil : count [] = 1 := rfl

@[simp] lemma count_cons (n : ℕ) (shape : List ℕ) : count (n :: shape) = n * count shape := rfl

/-- A size that may be spread to another one. -/
def SizeSpreads (source target : ℕ) : Prop := source = target ∨ source = 1

/-- The array can be spread over a shape: with ones in front, each of its sizes is that of the shape
or one. -/
structure SpreadsOver (t : Tensor α) (shape : List ℕ) : Prop where
  full : t.Full
  sizes : List.Forall₂ SizeSpreads
    (List.replicate (shape.length - t.shape.length) 1 ++ t.shape) shape

/-- An array is spread over its own shape without change. -/
lemma Full.spreadsOver {t : Tensor α} (full : t.Full) : t.SpreadsOver t.shape where
  full := full
  sizes := by
    rw [Nat.sub_self, List.replicate_zero, List.nil_append, List.forall₂_same]
    intro n _
    exact .inl rfl

lemma full_map {t : Tensor α} (full : t.Full) (f : α → β) : (t.map f).Full := by
  simpa [Full, Tensor.map] using full

lemma SpreadsOver.map {t : Tensor α} (spreads : t.SpreadsOver shape) (f : α → β) :
    (t.map f).SpreadsOver shape :=
  ⟨full_map spreads.full f, spreads.sizes⟩

/-- A shape joined with one that is spread over it stays as it is. Both have the last dimension
first. -/
lemma joinShapes_of_spreads {source : List ℕ} {missing : ℕ}
    (spreads : List.Forall₂ SizeSpreads (source ++ List.replicate missing 1) shape) :
    joinShapes shape source = some shape := by
  induction source generalizing shape with
  | nil => cases shape <;> rfl
  | cons s source ih =>
    obtain ⟨n, rest, size, tail, rfl⟩ := List.forall₂_cons_left_iff.mp spreads
    have joined := ih tail
    rcases size with rfl | rfl
    · simp [joinShapes, joined]
    · by_cases one : n = 1
      · simp [joinShapes, joined, one]
      · simp [joinShapes, joined, one]

/-- Ones are spread over any shape. -/
lemma ones_spread (shape : List ℕ) :
    List.Forall₂ SizeSpreads (List.replicate shape.length 1) shape := by
  induction shape with
  | nil => exact .nil
  | cons n shape ih => exact .cons (.inr rfl) ih

/-- Two shapes that can be joined are both spread over the joint shape, with the last dimension
first. -/
lemma spreads_of_joinShapes {ms ns joined : List ℕ} (same : joinShapes ms ns = some joined) :
    List.Forall₂ SizeSpreads (ms ++ List.replicate (joined.length - ms.length) 1) joined ∧
      List.Forall₂ SizeSpreads (ns ++ List.replicate (joined.length - ns.length) 1) joined := by
  have itself (shape : List ℕ) :
      List.Forall₂ SizeSpreads (shape ++ List.replicate (shape.length - shape.length) 1) shape := by
    rw [Nat.sub_self, List.replicate_zero, List.append_nil, List.forall₂_same]
    exact fun n _ => .inl rfl
  induction ms generalizing ns joined with
  | nil =>
    obtain rfl : ns = joined := by simpa [joinShapes] using same
    exact ⟨ones_spread ns, itself ns⟩
  | cons m ms ih =>
    cases ns with
    | nil =>
      obtain rfl : m :: ms = joined := by simpa [joinShapes] using same
      exact ⟨itself _, ones_spread _⟩
    | cons n ns =>
      rw [joinShapes, Option.bind_eq_bind, Option.bind_eq_some_iff] at same
      obtain ⟨rest, tails, size⟩ := same
      obtain ⟨left, right⟩ := ih tails
      split_ifs at size with equal one one' <;> obtain rfl := Option.some.inj size
      · simpa using ⟨⟨.inl rfl, left⟩, .inl equal.symm, right⟩
      · simpa using ⟨⟨.inr one, left⟩, .inl rfl, right⟩
      · simpa using ⟨⟨.inl rfl, left⟩, .inr one', right⟩

lemma Full.spreadsOver_reverse {t : Tensor α} (full : t.Full) {joined : List ℕ}
    (sizes : List.Forall₂ SizeSpreads
      (t.shape.reverse ++ List.replicate (joined.length - t.shape.reverse.length) 1) joined) :
    t.SpreadsOver joined.reverse where
  full := full
  sizes := by simpa using List.rel_reverse sizes

/-! ### Entries -/

/-- Pieces of one length, put together again. -/
lemma flatten_pieces (entries : List α) (size m : ℕ) :
    ((List.range m).map fun i => (entries.drop (i * size)).take size).flatten
      = entries.take (m * size) := by
  induction m with
  | zero => simp
  | succ m ih =>
    rw [List.range_succ, List.map_append, List.flatten_append, ih, Nat.succ_mul, List.take_add]
    simp

/-- Over its own shape an array keeps its entries. Those for which there is no place are left
out. -/
lemma spread_self (n : ℕ) (shape : List ℕ) (entries : List α) :
    spread (n :: shape) (n :: shape) entries = entries.take (count (n :: shape)) := by
  induction shape generalizing n entries with
  | nil => simpa [spread] using flatten_pieces entries 1 n
  | cons m shape ih =>
    have pieces := flatten_pieces entries (count (m :: shape)) n
    rw [spread, if_pos rfl, count_cons n]
    simpa only [ih, List.take_take, Nat.min_self] using pieces

lemma spreadTo_self {t : Tensor α} (full : t.Full) : t.spreadTo t.shape = t.entries := by
  rw [spreadTo, Nat.sub_self, List.replicate_zero, List.nil_append]
  cases sizes : t.shape with
  | nil => rfl
  | cons n shape => rw [spread_self, ← sizes, ← full, List.take_length]

lemma length_flatten_pieces {size m : ℕ} {piece : ℕ → List α}
    (lengths : ∀ i < m, (piece i).length = size) :
    ((List.range m).map piece).flatten.length = m * size := by
  induction m with
  | zero => simp
  | succ m ih =>
    have rest := ih fun i below => lengths i (Nat.lt_succ_of_lt below)
    rw [List.range_succ, List.map_append, List.flatten_append, List.length_append, rest,
      Nat.succ_mul]
    simp [lengths]

/-- Spread entries fill the shape. -/
lemma length_spread {source : List ℕ} (spreads : List.Forall₂ SizeSpreads source shape)
    {entries : List α} (full : entries.length = count source) :
    (spread source shape entries).length = count shape := by
  induction spreads generalizing entries with
  | nil => exact full
  | @cons s n source shape size _ ih =>
    rw [count_cons] at full
    have pieces : ((List.range s).map fun i => spread source shape
        ((entries.drop (i * count source)).take (count source))).flatten.length
          = s * count shape := by
      apply length_flatten_pieces
      intro i below
      have room : (i + 1) * count source ≤ s * count source := Nat.mul_le_mul_right _ below
      rw [Nat.succ_mul] at room
      apply ih
      rw [List.length_take, List.length_drop, full]
      omega
    rw [spread]
    split_ifs with same
    · rw [pieces, same, count_cons]
    · have one : s = 1 := size.resolve_left same
      rw [one, Nat.one_mul] at pieces
      rw [one, List.length_flatten, List.map_replicate, List.sum_replicate_nat, pieces, count_cons]

lemma SpreadsOver.length_spreadTo {t : Tensor α} (spreads : t.SpreadsOver shape) :
    (t.spreadTo shape).length = count shape := by
  apply length_spread spreads.sizes
  have ones : count (List.replicate (shape.length - t.shape.length) 1 ++ t.shape)
      = count t.shape := by
    induction shape.length - t.shape.length with
    | zero => rfl
    | succ m ih => simpa [count, List.replicate_succ] using ih
  rw [ones]
  exact spreads.full

lemma spread_map (f : α → β) (source shape : List ℕ) (entries : List α) :
    spread source shape (entries.map f) = (spread source shape entries).map f := by
  induction source generalizing shape entries with
  | nil => simp [spread]
  | cons s source ih =>
    cases shape with
    | nil => simp [spread]
    | cons n shape =>
      have pieces : ((List.range s).map fun i => spread source shape
            (((entries.map f).drop (i * count source)).take (count source))).flatten
          = ((List.range s).map fun i => spread source shape
            ((entries.drop (i * count source)).take (count source))).flatten.map f := by
        simp [List.map_flatten, Function.comp_def, ← List.map_drop, ← List.map_take, ih]
      rw [spread, spread]
      simp only [pieces]
      split_ifs
      · rfl
      · simp [List.map_flatten]

lemma spreadTo_map (f : α → β) (t : Tensor α) :
    (t.map f).spreadTo shape = (t.spreadTo shape).map f :=
  spread_map f _ shape t.entries

lemma spreadTo_ofScalar {n : ℕ} (a : α) : (ofScalar a).spreadTo [n] = List.replicate n a := by
  by_cases one : 1 = n
  · subst one
    simp [spreadTo, ofScalar, spread, count]
  · simp [spreadTo, ofScalar, spread, count, one]

/-! ### Operations -/

lemma zipWith_take (f : α → β → γ) {n : ℕ} (xs : List α) {ys : List β} (short : ys.length ≤ n) :
    List.zipWith f (xs.take n) ys = List.zipWith f xs ys := by
  conv_lhs => rw [← List.take_of_length_le short]
  rw [← List.take_zipWith, List.take_of_length_le (by simp; omega)]

/-- An operation with an array that is spread keeps the shape. -/
theorem combine_of_spreadsOver (f : α → β → γ) {s : Tensor α} {t : Tensor β}
    (shape_eq : s.shape = shape) (spreads : t.SpreadsOver shape) :
    combine f s t = .ok ⟨shape, List.zipWith f s.entries (t.spreadTo shape)⟩ := by
  subst shape_eq
  by_cases same : s.shape = t.shape
  · rw [combine_of_shape_eq f same, same, spreadTo_self spreads.full]
  · have joined : joinShapes s.shape.reverse t.shape.reverse = some s.shape.reverse := by
      have reversed := List.rel_reverse spreads.sizes
      rw [List.reverse_append, List.reverse_replicate] at reversed
      exact joinShapes_of_spreads reversed
    have kept : List.zipWith f (s.spreadTo s.shape) (t.spreadTo s.shape)
        = List.zipWith f s.entries (t.spreadTo s.shape) := by
      rw [spreadTo, Nat.sub_self, List.replicate_zero, List.nil_append]
      cases sizes : s.shape with
      | nil => rfl
      | cons n shape =>
        rw [spread_self, ← sizes, zipWith_take f _ (Nat.le_of_eq spreads.length_spreadTo)]
    rw [combine, if_neg same, joined]
    simp [kept]

/-- An operation on arrays with an entry for each place gives such an array. -/
theorem full_combine {f : α → β → γ} {s : Tensor α} {t : Tensor β} {u : Tensor γ} (hs : s.Full)
    (ht : t.Full) (combined : combine f s t = .ok u) : u.Full := by
  rw [combine] at combined
  split_ifs at combined with same
  · obtain rfl := Except.ok.inj combined
    have both : t.entries.length = count s.shape := by
      rw [same]
      exact ht
    simp [Full, both, show s.entries.length = count s.shape from hs]
  · cases joint : joinShapes s.shape.reverse t.shape.reverse with
    | none => simp [joint] at combined
    | some joined =>
      rw [joint] at combined
      obtain rfl := Except.ok.inj combined
      obtain ⟨left, right⟩ := spreads_of_joinShapes joint
      have first := (hs.spreadsOver_reverse left).length_spreadTo
      have second := (ht.spreadsOver_reverse right).length_spreadTo
      simp [Full, first, second]

/-- A number goes with every entry of a vector. -/
lemma combine_ofScalar (f : α → β → γ) (v : Vec α) (b : β) :
    combine f (ofVec v) (ofScalar b) = .ok (ofVec (v.map (f · b))) := by
  have spreads : (ofScalar b).SpreadsOver [v.length] :=
    ⟨full_ofScalar b, .cons (.inr rfl) .nil⟩
  have shape : (ofVec v).shape = [v.length] := rfl
  have entries : List.zipWith f v (List.replicate v.length b) = v.map (f · b) := by
    rw [← List.map_const', List.zipWith_map_right, List.zipWith_self]
  rw [combine_of_spreadsOver f shape spreads, spreadTo_ofScalar]
  simp [ofVec, entries]

end Tensor

end NewtonKrylov
