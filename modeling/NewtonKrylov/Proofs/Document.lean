import NewtonKrylov.Proofs.Configuration.Keys

/-!
# The keys of a document

A later entry of a document with the key of an earlier one takes its place. So in a mapping that a
document stands for no two keys are the same, and if all keys are texts, they are told apart by
their code numbers.
-/

namespace NewtonKrylov

namespace Value

/-- No two keys of these entries are the same. -/
def Apart (entries : List (Value × Value)) : Prop :=
  entries.Pairwise fun d e => d.1.sameKey e.1 = false

/-- The keys after an entry has been added are those before and its own. -/
lemma mem_addEntry {key value : Value} {entries : List (Value × Value)} {e : Value × Value}
    (member : e ∈ addEntry key value entries) : (∃ d ∈ entries, d.1 = e.1) ∨ e.1 = key := by
  induction entries with
  | nil => exact .inr (congrArg Prod.fst (List.mem_singleton.mp member))
  | cons d rest ih =>
    obtain ⟨k, v⟩ := d
    rw [addEntry] at member
    split_ifs at member
    · rcases List.mem_cons.mp member with rfl | later
      · exact .inl ⟨_, List.mem_cons_self, rfl⟩
      · exact .inl ⟨e, List.mem_cons_of_mem _ later, rfl⟩
    · rcases List.mem_cons.mp member with rfl | later
      · exact .inl ⟨_, List.mem_cons_self, rfl⟩
      · rcases ih later with ⟨d, old, same⟩ | new
        · exact .inl ⟨d, List.mem_cons_of_mem _ old, same⟩
        · exact .inr new

/-- An entry is added in the place of one with its key, and else at the end. -/
lemma Apart.addEntry {entries : List (Value × Value)} (apart : Apart entries) (key value : Value) :
    Apart (addEntry key value entries) := by
  induction entries with
  | nil => exact List.pairwise_singleton _ _
  | cons d rest ih =>
    obtain ⟨k, v⟩ := d
    obtain ⟨first, others⟩ := List.pairwise_cons.mp apart
    rw [Value.addEntry]
    split_ifs with same
    · exact List.pairwise_cons.mpr ⟨first, others⟩
    · refine List.pairwise_cons.mpr ⟨fun e member => ?_, ih others⟩
      -- The key of a later entry was there before, or is the added one, which differs from this
      -- key.
      rcases mem_addEntry member with ⟨d, old, equal⟩ | new
      · rw [← equal]
        exact first d old
      · rw [new]
        exact Bool.eq_false_iff.mpr same

lemma apart_foldl_addEntry (added : List (Value × Value)) {entries : List (Value × Value)}
    (apart : Apart entries) :
    Apart (added.foldl (fun before (k, v) => Value.addEntry k v before) entries) := by
  induction added generalizing entries with
  | nil => exact apart
  | cons e added ih => exact ih (apart.addEntry e.1 e.2)

end Value

namespace Document

open Value

variable {entries : List (Value × Value)}

lemma mapError_eq_ok {ε δ β : Type} {x : Except ε β} {f : ε → δ} {b : β} :
    x.mapError f = .ok b ↔ x = .ok b := by
  cases x <;> simp [Except.mapError]

/-! ### What is no mapping -/

lemma ofCodes_ne_mapping (cs : List ℕ) : Value.ofCodes cs ≠ .mapping entries := by
  unfold Value.ofCodes
  split_ifs <;> exact nofun

lemma ofText?_ne_mapping (cs : List Char) :
    Moment.ofText? cs ≠ some (.ok (.mapping entries)) := by
  unfold Moment.ofText?
  split
  · split_ifs <;> exact nofun
  · intro moment
    obtain ⟨m, -, value⟩ := Option.map_eq_some_iff.mp moment
    split_ifs at value
    cases value

lemma ofPlain_ne_mapping (text : String) : Scalar.ofPlain text ≠ .ok (.mapping entries) := by
  intro mapping
  unfold Scalar.ofPlain at mapping
  dsimp only at mapping
  split_ifs at mapping
  · cases mapping
  · cases mapping
  · cases mapping
  split at mapping
  · obtain ⟨_, -, other⟩ := map_eq_ok.mp mapping
    cases other
  split at mapping
  · obtain ⟨_, -, other⟩ := map_eq_ok.mp mapping
    cases other
  cases moment : Moment.ofText? text.toList with
  | none =>
    rw [moment] at mapping
    cases mapping
  | some x =>
    rw [moment, Option.getD_some] at mapping
    exact ofText?_ne_mapping _ (moment.trans (congrArg some mapping))

/-! ### Mappings -/

/-- In a mapping that a node stands for no two keys are the same. -/
lemma apart_of_value {node : Node} (value : node.value = .ok (.mapping entries)) :
    Apart entries := by
  cases node with
  | plain text =>
    rw [Node.value] at value
    exact absurd (mapError_eq_ok.mp value) (ofPlain_ne_mapping text)
  | quoted codes =>
    rw [Node.value] at value
    exact absurd (Except.ok.inj value) (ofCodes_ne_mapping codes)
  | sequence items =>
    rw [Node.value] at value
    obtain ⟨_, -, other⟩ := map_eq_ok.mp (mapError_eq_ok.mp value)
    cases other
  | mapping nodes =>
    rw [Node.value] at value
    obtain ⟨added, -, same⟩ := map_eq_ok.mp (mapError_eq_ok.mp value)
    cases same
    exact apart_foldl_addEntry added .nil

/-- In a mapping that a document stands for no two keys are the same. -/
lemma apart_of_content {text : String} (content : Document.content text = .ok (.mapping entries)) :
    Apart entries := by
  obtain ⟨node, -, value⟩ := bind_eq_ok.mp content
  cases node with
  | none => cases value
  | some node => exact apart_of_value (mapError_eq_ok.mp value)

end Document

open Value in
/-- A document all keys of which are texts gives each of them once. -/
theorem Configuration.textKeys_of_content {text : String} {entries : List (Value × Value)}
    (content : Document.content text = .ok (.mapping entries))
    (texts : ∀ e ∈ entries, e.1.IsText) : TextKeys entries where
  texts := texts
  distinct := by
    refine List.pairwise_map.mpr ((Document.apart_of_content content).imp_of_mem ?_)
    intro d e hd he apart same
    rw [sameKey_of_codes (texts d hd) (texts e he), same, beq_self_eq_true] at apart
    cases apart

end NewtonKrylov
