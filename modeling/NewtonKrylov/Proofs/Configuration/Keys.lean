import Mathlib.Data.List.Lex
import Mathlib.Data.List.Nodup
import Mathlib.Data.List.Sort
import NewtonKrylov.Configuration.Loading
import NewtonKrylov.Proofs.Effects

/-!
# The keys of a configuration document

The keys of a configuration document are texts, and each of them is given once. Keys that are not
the name of a field are listed in the order of their code numbers, so the list depends on the keys
alone and not on their order in the document. If all keys are names, the value that is found for a
field is that of the one entry with its name.
-/

namespace NewtonKrylov

namespace Value

variable {v w : Value} {cs ds : List ℕ}

/-! ### Texts -/

lemma codes?_eq_some_iff : v.codes? = some cs
    ↔ (∃ s : String, v = .text s ∧ s.toList.map Char.toNat = cs) ∨ v = .codes cs := by
  cases v <;> simp [codes?]

lemma text_injective {s t : String} (same : (text s).codes? = (text t).codes?) : s = t := by
  refine String.toList_injective (List.map_injective_iff.mpr ?_ (Option.some.inj same))
  exact fun c d => Char.toNat_inj.mp

/-- Texts are the same key if they have the same code numbers. -/
lemma sameKey_of_codes (hv : v.codes? = some cs) (hw : w.codes? = some ds) :
    v.sameKey w = (cs == ds) := by
  obtain ⟨s, rfl, rfl⟩ | rfl := codes?_eq_some_iff.mp hv <;>
    obtain ⟨t, rfl, rfl⟩ | rfl := codes?_eq_some_iff.mp hw <;> rfl

/-- Texts are in the order of their code numbers. -/
lemma lessThan?_of_codes (hv : v.codes? = some cs) (hw : w.codes? = some ds) :
    lessThan? v w = some (decide (cs < ds)) := by
  obtain ⟨s, rfl, rfl⟩ | rfl := codes?_eq_some_iff.mp hv <;>
    obtain ⟨t, rfl, rfl⟩ | rfl := codes?_eq_some_iff.mp hw <;> rfl

/-- The code numbers of a text, and none for other values. -/
def codeNumbers (v : Value) : List ℕ := v.codes?.getD []

/-- Is this a text? -/
def IsText (v : Value) : Prop := v.codes? = some v.codeNumbers

lemma isText_text (s : String) : (text s).IsText := rfl

lemma IsText.lessThan?_eq_some_true_iff (hv : v.IsText) (hw : w.IsText) :
    lessThan? v w = some true ↔ v.codeNumbers < w.codeNumbers := by
  rw [lessThan?_of_codes hv hw, Option.some.injEq, decide_eq_true_iff]

/-- Is this a list of texts in increasing order? -/
def Increasing (keys : List Value) : Prop := keys.Pairwise fun v w => lessThan? v w = some true

/-- Texts that are told apart by their code numbers have an order. -/
lemma exists_sort? {keys : List Value} (texts : ∀ k ∈ keys, k.IsText)
    (distinct : (keys.map codeNumbers).Nodup) :
    ∃ sorted, sort? keys = some sorted ∧ sorted.Perm keys ∧ Increasing sorted := by
  set sorted := keys.mergeSort fun v w => lessThan? w v != some true
  have perm : sorted.Perm keys := List.mergeSort_perm _ _
  have isText : ∀ k ∈ sorted, k.IsText := fun k member => texts k (perm.mem_iff.mp member)
  refine ⟨sorted, ?_, perm, ?_⟩
  · refine if_pos (List.all_eq_true.mpr fun v hv => List.all_eq_true.mpr fun w hw => ?_)
    rw [lessThan?_of_codes (texts v hv) (texts w hw), Option.isSome_some, Bool.or_true]
  · -- Sorted as texts, the code numbers are sorted as lists, and there the library knows that the
    -- result is in order.
    have codes : sorted.map codeNumbers
        = (keys.map codeNumbers).mergeSort fun cs ds => decide (cs ≤ ds) := by
      refine List.map_mergeSort fun v hv w hw => ?_
      rw [lessThan?_of_codes (texts w hw) (texts v hv)]
      rw [← decide_eq_decide.mpr not_lt, decide_not]
      cases decide (w.codeNumbers < v.codeNumbers) <;> rfl
    have ordered : (sorted.map codeNumbers).Pairwise (· ≤ ·) := by
      rw [codes]
      exact List.pairwise_mergeSort' (· ≤ ·) _
    have apart : (sorted.map codeNumbers).Nodup := (perm.map _).nodup_iff.mpr distinct
    have strict := List.pairwise_map.mp (ordered.and apart)
    refine strict.imp_of_mem fun hv hw both => ?_
    rw [(isText _ hv).lessThan?_eq_some_true_iff (isText _ hw)]
    exact lt_of_le_of_ne both.1 both.2

/-- Texts in increasing order are determined by which they are. -/
lemma Increasing.unique {keys others : List Value} (texts : ∀ k ∈ keys, k.IsText)
    (increasing : Increasing keys) (others_increasing : Increasing others)
    (same : ∀ k, k ∈ keys ↔ k ∈ others) : keys = others := by
  have asymmetric {v w : Value} (hv : v ∈ keys) (hw : w ∈ keys) (less : lessThan? v w = some true) :
      lessThan? w v ≠ some true := by
    rw [(texts v hv).lessThan?_eq_some_true_iff (texts w hw)] at less
    rw [Ne, (texts w hw).lessThan?_eq_some_true_iff (texts v hv)]
    exact less.asymm
  have nodup {l : List Value} (ordered : Increasing l) (mem : ∀ k ∈ l, k ∈ keys) : l.Nodup :=
    ordered.imp_of_mem fun hv hw less equal => by
      subst equal
      exact asymmetric (mem _ hv) (mem _ hv) less less
  have perm : keys.Perm others :=
    (List.perm_ext_iff_of_nodup (nodup increasing fun _ => id)
      (nodup others_increasing fun k => (same k).mpr)).mpr same
  exact perm.eq_of_pairwise (fun v w hv hw less more =>
    absurd more (asymmetric hv ((same w).mpr hw) less)) increasing others_increasing

end Value

namespace Configuration

open Value

variable {entries : List (Value × Value)}

/-- The keys of a mapping are texts, no two of them the same. -/
structure TextKeys (entries : List (Value × Value)) : Prop where
  texts : ∀ e ∈ entries, e.1.IsText
  distinct : (entries.map fun e => e.1.codeNumbers).Nodup

/-- Is every key the name of a field? -/
def NamesFields (entries : List (Value × Value)) : Prop :=
  ∀ e ∈ entries, ∃ f : Field, e.1 = .text f.name

/-- The keys that are no names of fields, in increasing order. -/
structure ListsUnknown (entries : List (Value × Value)) (unknown : List Value) : Prop where
  mem_iff : ∀ k, k ∈ unknown ↔ (∃ v, (k, v) ∈ entries) ∧ ∀ f : Field, k ≠ .text f.name
  increasing : Increasing unknown

lemma TextKeys.perm (keys : TextKeys entries) {others : List (Value × Value)}
    (perm : others.Perm entries) : TextKeys others where
  texts e member := keys.texts e (perm.mem_iff.mp member)
  distinct := (perm.map _).nodup_iff.mpr keys.distinct

lemma NamesFields.perm {others : List (Value × Value)} (perm : others.Perm entries) :
    NamesFields others ↔ NamesFields entries := by
  simp only [NamesFields, perm.mem_iff]

/-! ### Names -/

lemma isKnown_iff {k : Value} : isKnown k = true ↔ ∃ f : Field, k = .text f.name := by
  constructor
  · intro known
    cases k with
    | text s =>
      obtain ⟨f, -, same⟩ := List.find?_isSome.mp known
      exact ⟨f, congrArg text (of_decide_eq_true same).symm⟩
    | _ => cases known
  · rintro ⟨f, rfl⟩
    rw [isKnown, Field.ofName?_name]
    rfl

/-- The keys that are not known are those that are no names. -/
lemma filter_unknown_eq_nil_iff :
    (entries.map Prod.fst).filter (!isKnown ·) = [] ↔ NamesFields entries := by
  simp [List.filter_eq_nil_iff, NamesFields, isKnown_iff]

/-- Keys that are no names of fields are reported as a list of all of them. -/
lemma TextKeys.exists_refuseUnknown (keys : TextKeys entries) (path : String) :
    ∃ unknown, ListsUnknown entries unknown ∧
      refuseUnknown path ((entries.map Prod.fst).filter (!isKnown ·))
        = .unknownKeys path unknown := by
  have isText : ∀ k ∈ (entries.map Prod.fst).filter (!isKnown ·), k.IsText := by
    intro k member
    obtain ⟨e, entry, rfl⟩ := List.mem_map.mp (List.mem_filter.mp member).1
    exact keys.texts e entry
  have distinct : (((entries.map Prod.fst).filter (!isKnown ·)).map codeNumbers).Nodup := by
    refine List.Nodup.sublist (List.filter_sublist.map codeNumbers) ?_
    rw [List.map_map]
    exact keys.distinct
  obtain ⟨unknown, sorts, perm, increasing⟩ := exists_sort? isText distinct
  refine ⟨unknown, ⟨fun k => ?_, increasing⟩, ?_⟩
  · have named : isKnown k = false ↔ ∀ f : Field, k ≠ .text f.name := by
      rw [← Bool.not_eq_true, isKnown_iff, not_exists]
    rw [perm.mem_iff, List.mem_filter, List.mem_map]
    simp [named]
  · have writable : unknown.all isWritable = true := by
      refine List.all_eq_true.mpr fun k member => ?_
      obtain ⟨s, rfl, -⟩ | codes := codes?_eq_some_iff.mp (isText k (perm.mem_iff.mp member))
      · rfl
      · rw [codes]
        rfl
    rw [refuseUnknown, sorts]
    exact if_pos writable

lemma TextKeys.listsUnknown_unique (keys : TextKeys entries) {unknown others : List Value}
    (lists : ListsUnknown entries unknown) (also : ListsUnknown entries others) :
    unknown = others := by
  refine lists.increasing.unique (fun k member => ?_) also.increasing fun k => ?_
  · obtain ⟨⟨v, entry⟩, -⟩ := (lists.mem_iff k).mp member
    exact keys.texts (k, v) entry
  · rw [lists.mem_iff, also.mem_iff]

/-! ### Entries -/

/-- An entry is determined by its key. -/
lemma TextKeys.entry_unique (keys : TextKeys entries) {k v w : Value} (first : (k, v) ∈ entries)
    (second : (k, w) ∈ entries) : v = w :=
  (Prod.mk.inj (List.inj_on_of_nodup_map keys.distinct first second rfl)).2

/-- Where all keys are names, the value that is found for a field is that of its entry. -/
lemma TextKeys.given?_eq_some_iff (keys : TextKeys entries) (names : NamesFields entries)
    (f : Field) (v : Value) : given? entries f = some v ↔ (.text f.name, v) ∈ entries := by
  have found_iff {e : Value × Value} (member : e ∈ entries) :
      e.1.sameKey (.text f.name) = true ↔ e.1 = .text f.name := by
    obtain ⟨g, name⟩ := names e member
    rw [name, sameKey_of_codes (isText_text _) (isText_text _), beq_iff_eq]
    exact ⟨fun same => congrArg text (text_injective (congrArg some same)),
      fun same => congrArg codeNumbers same⟩
  have member_of_found {w : Value} (found : given? entries f = some w) :
      (.text f.name, w) ∈ entries := by
    obtain ⟨⟨k, w⟩, search, rfl⟩ := Option.map_eq_some_iff.mp found
    have member := List.mem_of_find?_eq_some search
    have key : k = .text f.name := (found_iff member).mp (List.find?_some search :)
    rwa [← key]
  refine ⟨member_of_found, fun member => ?_⟩
  have finds : (given? entries f).isSome = true := by
    rw [given?, Option.isSome_map, List.find?_isSome]
    exact ⟨_, member, (found_iff member).mpr rfl⟩
  obtain ⟨w, found⟩ := Option.isSome_iff_exists.mp finds
  rw [found, keys.entry_unique (member_of_found found) member]

end Configuration

end NewtonKrylov
