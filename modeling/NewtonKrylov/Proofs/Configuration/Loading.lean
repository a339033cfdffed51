import NewtonKrylov.Proofs.Comparison
import NewtonKrylov.Proofs.Document

/-!
# Loading a configuration

A document that is a mapping from texts to values is loaded in three stages: all its keys have to be
names of fields, the values of the fields for real numbers have to be readable as such, and the
configuration that the document describes has to meet all requirements. The first stage that fails
is reported, and within a stage the first failure in the order of the fields. So a document is
accepted exactly if all three stages pass, and what comes of it does not depend on the order of its
keys.
-/

namespace NewtonKrylov

namespace Configuration

variable {entries : List (Value × Value)}

/-! ### What a document says -/

/-- A value that a mapping gives a field can be read as a real number, unless there is none. -/
def IsReadable (entries : List (Value × Value)) (f : Field) : Prop :=
  ∀ v, (.text f.name, v) ∈ entries → v ≠ .null → ∃ x, toReal v = .ok x

/-- A value that a mapping gives a field cannot be read as a real number, and this is why. -/
def IsUnreadable (entries : List (Value × Value)) (f : Field) (cause : Refusal) : Prop :=
  ∃ v, (.text f.name, v) ∈ entries ∧ v ≠ .null ∧ toReal v = .error cause

/-- The configuration that a mapping describes. A field that is not given has its default value, a
field for real numbers the number that is read, and any other the value as it is given. A field that
is given no value has none. -/
structure Describes (entries : List (Value × Value)) (p : Configuration) : Prop where
  absent : ∀ f : Field, (∀ v, (.text f.name, v) ∉ entries) → p.get f = f.default
  read : ∀ f v x, (.text f.name, v) ∈ entries → f ∈ Field.reals → toReal v = .ok x →
    p.get f = .float x
  kept : ∀ f v, (.text f.name, v) ∈ entries → f ∉ Field.reals ∨ v = .null → p.get f = v

/-! ### Reading real numbers -/

lemma set_get (p : Configuration) (f : Field) : p.set f (p.get f) = p := by
  obtain ⟨get⟩ := p
  refine congrArg Configuration.mk (funext fun g => ?_)
  split_ifs with same
  · rw [same]
  · rfl

/-- Can a value be read as a real number, if there is one? -/
def reading : Option Value → Except Refusal Unit
  | none => .ok ()
  | some .null => .ok ()
  | some v => (toReal v).map fun _ => ()

lemma reading_some {v : Value} (some_value : v ≠ .null) :
    reading (some v) = (toReal v).map fun _ => () := by
  cases v with
  | null => exact absurd rfl some_value
  | _ => rfl

/-- The real number that is read from what is given, or else the value that there is. -/
def converted (o : Option Value) (v : Value) : Value :=
  ((o.bind fun w => (toReal w).toOption).map Value.float).getD v

lemma converted_of_ok {v : Value} {x : Float} (value : toReal v = .ok x) (w : Value) :
    converted (some v) w = .float x := by
  rw [converted, Option.bind_some, value]
  rfl

/-- Where a field is read a second time the number stays. -/
lemma converted_converted (o : Option Value) (v : Value) :
    converted o (converted o v) = converted o v := by
  unfold converted
  cases o.bind fun w => (toReal w).toOption <;> rfl

lemma readReal_eq (p : Configuration) (f : Field) (o : Option Value) :
    readReal p f o = reading o >>= fun _ => .ok (p.set f (converted o (p.get f))) := by
  unfold readReal
  split
  · rw [converted, Option.bind_none, Option.map_none, Option.getD_none, set_get]
    rfl
  · have none : toReal .null = .error .wrongKind := rfl
    rw [converted, Option.bind_some, none]
    exact congrArg Except.ok (set_get p f).symm
  · next v some_value =>
    rw [reading_some some_value]
    cases value : toReal v with
    | ok x =>
      rw [converted_of_ok value]
      rfl
    | error cause => rfl

/-- Read the fields of a list, of those that can be read. -/
def readAll (o : Field → Option Value) (fs : List Field) (p : Configuration) : Configuration :=
  fs.foldl (fun p f => p.set f (converted (o f) (p.get f))) p

/-- The fields are read one after the other if each of them can be read. -/
lemma foldlM_readReal (o : Field → Option Value) (fs : List Field) (p : Configuration) :
    fs.foldlM (fun p f => readReal p f (o f)) p
      = (forM fs fun f => reading (o f)) >>= fun _ => .ok (readAll o fs p) := by
  -- By induction on the fields. Whether a field can be read does not depend on those read before
  -- it.
  induction fs generalizing p with
  | nil => rfl
  | cons f fs ih =>
    rw [List.foldlM_cons, List.forM_cons, readReal_eq]
    cases reading (o f) with
    | ok _ => exact ih _
    | error cause => rfl

/-- Reading fields changes these only. -/
lemma get_readAll (o : Field → Option Value) (fs : List Field) (p : Configuration) (g : Field) :
    (readAll o fs p).get g = if g ∈ fs then converted (o g) (p.get g) else p.get g := by
  induction fs generalizing p with
  | nil => rfl
  | cons f fs ih =>
    change (readAll o fs (p.set f (converted (o f) (p.get f)))).get g = _
    rw [ih]
    by_cases same : g = f
    · subst same
      simp [converted_converted]
    · simp [get_set_of_ne _ _ same, same]

/-! ### The configuration that a document describes -/

/-- The configuration in which the values of a mapping are read as real numbers where they can
be. -/
def described (entries : List (Value × Value)) : Configuration :=
  readAll (given? entries) Field.reals ⟨fun f => (given? entries f).getD f.default⟩

lemma ofEntries_eq (entries : List (Value × Value)) : ofEntries entries
    = (forM Field.reals fun f => reading (given? entries f)) >>= fun _ =>
      .ok (described entries) :=
  foldlM_readReal _ _ _

lemma get_described (entries : List (Value × Value)) (f : Field) :
    (described entries).get f = if f ∈ Field.reals
      then converted (given? entries f) ((given? entries f).getD f.default)
      else (given? entries f).getD f.default :=
  get_readAll _ _ _ f

section Names

variable (keys : TextKeys entries) (names : NamesFields entries)
include keys names

lemma reading_eq_ok_iff (f : Field) :
    reading (given? entries f) = .ok () ↔ IsReadable entries f := by
  simp only [IsReadable, ← keys.given?_eq_some_iff names]
  cases given? entries f with
  | none => simp [reading]
  | some v =>
    by_cases none : v = .null
    · simp [none, reading]
    · simp [none, reading_some none, map_eq_ok]

lemma reading_eq_error_iff (f : Field) (cause : Refusal) :
    reading (given? entries f) = .error cause ↔ IsUnreadable entries f cause := by
  simp only [IsUnreadable, ← keys.given?_eq_some_iff names]
  cases given? entries f with
  | none => simp [reading]
  | some v =>
    by_cases none : v = .null
    · simp [none, reading]
    · simp [none, reading_some none, map_eq_error]

lemma describes_described : Describes entries (described entries) where
  absent f absent := by
    have none : given? entries f = none := by
      refine Option.eq_none_iff_forall_ne_some.mpr fun v given => ?_
      exact absent v ((keys.given?_eq_some_iff names f v).mp given)
    rw [get_described, none]
    exact ite_self _
  read f v x member real value := by
    rw [get_described, if_pos real, (keys.given?_eq_some_iff names f v).mpr member]
    exact converted_of_ok value _
  kept f v member kept := by
    rw [get_described, (keys.given?_eq_some_iff names f v).mpr member]
    rcases kept with other | rfl
    · exact if_neg other
    · exact ite_self _

end Names

/-- If all values can be read, only one configuration is described. -/
lemma Describes.unique {p q : Configuration} (readable : ∀ f ∈ Field.reals, IsReadable entries f)
    (first : Describes entries p) (second : Describes entries q) : p = q := by
  have same (f : Field) : p.get f = q.get f := by
    by_cases given : ∃ v, (.text f.name, v) ∈ entries
    · obtain ⟨v, member⟩ := given
      by_cases kept : f ∉ Field.reals ∨ v = .null
      · rw [first.kept f v member kept, second.kept f v member kept]
      · obtain ⟨real, some_value⟩ := not_or.mp kept
        obtain ⟨x, value⟩ := readable f (not_not.mp real) v member some_value
        rw [first.read f v x member (not_not.mp real) value,
          second.read f v x member (not_not.mp real) value]
    · rw [first.absent f (not_exists.mp given), second.absent f (not_exists.mp given)]
  obtain ⟨get⟩ := p
  obtain ⟨others⟩ := q
  exact congrArg Configuration.mk (funext same)

section Names

variable (keys : TextKeys entries) (names : NamesFields entries)
include keys names

/-- The values of a document are read if all of them can be read. -/
lemma ofEntries_eq_ok_iff (p : Configuration) : ofEntries entries = .ok p
    ↔ (∀ f ∈ Field.reals, IsReadable entries f) ∧ Describes entries p := by
  have describes := describes_described keys names
  have all_read : (forM Field.reals fun f => reading (given? entries f)) = .ok ()
      ↔ ∀ f ∈ Field.reals, IsReadable entries f := by
    simp only [forM_eq_ok, reading_eq_ok_iff keys names]
  rw [ofEntries_eq, bind_eq_ok]
  constructor
  · rintro ⟨_, read, ended⟩
    cases ended
    exact ⟨all_read.mp read, describes⟩
  · rintro ⟨readable, others⟩
    exact ⟨(), all_read.mpr readable, congrArg Except.ok (describes.unique readable others)⟩

/-- The first value that cannot be read is reported. -/
lemma ofEntries_eq_error_iff (cause : Refusal) : ofEntries entries = .error cause
    ↔ FailsFirst (IsReadable entries) (IsUnreadable entries) Field.reals cause := by
  rw [ofEntries_eq, bind_eq_error, forM_eq_error]
  simp only [reading_eq_ok_iff keys names, reading_eq_error_iff keys names, reduceCtorEq,
    and_false, exists_false, or_false]

end Names

/-! ### Requirements -/

lemma check_eq_ok_iff (p : Configuration) :
    p.check = .ok () ↔ ∀ c ∈ checks, c.run (p.get c.field) = .ok () :=
  forM_eq_ok

/-- The first requirement that is not met is reported. -/
lemma check_eq_error_iff (p : Configuration) (cause : Refusal) : p.check = .error cause
    ↔ FailsFirst (fun c => c.run (p.get c.field) = .ok ())
      (fun c e => c.run (p.get c.field) = .error e) checks cause :=
  forM_eq_error

lemma holdsOfFloat_of_isNaN {x : Float} (undefined : x.isNaN = true) (r : Requirement) :
    r.holdsOfFloat x = false := by
  have not_le (a : Float) : ¬ a ≤ x := fun le => by
    have defined : x.isNaN = false := LawfulComparison.isNaN_right le
    rw [undefined] at defined
    cases defined
  cases r with
  | nonNegative => exact decide_eq_false (not_le 0)
  | positive => exact decide_eq_false fun lt => not_le 0 (LawfulComparison.le_of_lt lt)
  | atLeastOne => exact decide_eq_false (not_le 1)
  | callable => rfl

/-- A number that is none violates every requirement. -/
lemma run_of_isNaN {x : Float} (undefined : x.isNaN = true) (c : Check) :
    c.run (.float x) = .error (.violated c) := by
  have fails : c.requirement.holds (.float x) = .ok false := by
    cases requirement : c.requirement with
    | callable => rfl
    | _ =>
      rw [← holdsOfFloat_of_isNaN undefined c.requirement, requirement]
      rfl
  unfold Check.run
  split
  · next none => cases none
  · rw [fails]
    rfl

/-- Where no field is given, all requirements are met. -/
lemma check_default : default.check = .ok () := by
  refine (check_eq_ok_iff default).mpr (List.forall_iff_forall_mem.mp ?_)
  exact ⟨rfl, rfl, rfl, rfl, rfl, rfl, rfl, rfl, rfl, rfl, rfl, rfl, rfl⟩

/-! ### The stages -/

/-- A document without content gives every field its default value. -/
lemma ofContent_of_isNothing (path : String) {content : Value}
    (nothing : isNothing content = true) : ofContent path content = .ok default := by
  have none : ofEntries [] = .ok default := rfl
  simp only [ofContent, nothing, if_true, keysOf, ok_bind, none, check_default]
  rfl

/-- A mapping is never a document without content, except that it may have no entries. -/
lemma orEmpty_mapping (entries : List (Value × Value)) :
    (if isNothing (.mapping entries) = true then Value.mapping [] else .mapping entries)
      = .mapping entries := by
  cases entries <;> rfl

lemma ofContent_of_unknown (path : String) (names : ¬ NamesFields entries) :
    ofContent path (.mapping entries)
      = .error (refuseUnknown path ((entries.map Prod.fst).filter (!isKnown ·))) := by
  have unknown : ((entries.map Prod.fst).filter (!isKnown ·)).isEmpty = false := by
    rwa [List.isEmpty_eq_false_iff, Ne, filter_unknown_eq_nil_iff]
  simp only [ofContent, orEmpty_mapping, keysOf, ok_bind, unknown]
  rfl

lemma ofContent_of_names (path : String) (names : NamesFields entries) :
    ofContent path (.mapping entries)
      = ofEntries entries >>= fun p => p.check >>= fun _ => .ok p := by
  have known : ((entries.map Prod.fst).filter (!isKnown ·)) = [] :=
    filter_unknown_eq_nil_iff.mpr names
  simp only [ofContent, orEmpty_mapping, keysOf, ok_bind, known]
  rfl

/-- A mapping is accepted as the configuration that it describes if it passes all stages. -/
structure IsAccepted (entries : List (Value × Value)) (p : Configuration) : Prop where
  names : NamesFields entries
  readable : ∀ f ∈ Field.reals, IsReadable entries f
  describes : Describes entries p
  meets : ∀ c ∈ checks, c.run (p.get c.field) = .ok ()

/-- A mapping is refused because of the first stage that fails, and there because of the first field
or requirement. Of keys that are no names all are reported. -/
inductive IsRefused (path : String) (entries : List (Value × Value)) : Refusal → Prop
  | unknown {keys : List Value} (names : ¬ NamesFields entries)
      (lists : ListsUnknown entries keys) : IsRefused path entries (.unknownKeys path keys)
  | unreadable {cause : Refusal} (names : NamesFields entries)
      (first : FailsFirst (IsReadable entries) (IsUnreadable entries) Field.reals cause) :
      IsRefused path entries cause
  | unmet {cause : Refusal} {p : Configuration} (names : NamesFields entries)
      (readable : ∀ f ∈ Field.reals, IsReadable entries f) (describes : Describes entries p)
      (first : FailsFirst (fun c => c.run (p.get c.field) = .ok ())
        (fun c e => c.run (p.get c.field) = .error e) checks cause) :
      IsRefused path entries cause

section Stages

variable (keys : TextKeys entries)
include keys

lemma ofContent_eq_ok_iff (path : String) (p : Configuration) :
    ofContent path (.mapping entries) = .ok p ↔ IsAccepted entries p := by
  by_cases names : NamesFields entries
  · rw [ofContent_of_names path names, bind_eq_ok]
    constructor
    · rintro ⟨q, read, rest⟩
      obtain ⟨_, met, same⟩ := bind_eq_ok.mp rest
      cases same
      obtain ⟨readable, describes⟩ := (ofEntries_eq_ok_iff keys names p).mp read
      exact ⟨names, readable, describes, (check_eq_ok_iff p).mp met⟩
    · intro accepted
      have read := (ofEntries_eq_ok_iff keys names p).mpr ⟨accepted.readable, accepted.describes⟩
      have met := (check_eq_ok_iff p).mpr accepted.meets
      exact ⟨p, read, bind_eq_ok.mpr ⟨(), met, rfl⟩⟩
  · rw [ofContent_of_unknown path names]
    exact ⟨nofun, fun accepted => absurd accepted.names names⟩

lemma ofContent_eq_error_iff (path : String) (cause : Refusal) :
    ofContent path (.mapping entries) = .error cause ↔ IsRefused path entries cause := by
  by_cases names : NamesFields entries
  · rw [ofContent_of_names path names, bind_eq_error, ofEntries_eq_error_iff keys names]
    constructor
    · rintro (first | ⟨p, read, rest⟩)
      · exact .unreadable names first
      · obtain ⟨readable, describes⟩ := (ofEntries_eq_ok_iff keys names p).mp read
        have unmet : p.check = .error cause := by simpa [bind_eq_error] using rest
        exact .unmet names readable describes ((check_eq_error_iff p cause).mp unmet)
    · -- The names tell whether this is a refusal of the first stage or one of the two others.
      intro refused
      cases refused with
      | unknown others => exact absurd names others
      | unreadable _ first => exact .inl first
      | @unmet _ p _ readable describes first =>
        have read := (ofEntries_eq_ok_iff keys names p).mpr ⟨readable, describes⟩
        have unmet := (check_eq_error_iff p cause).mpr first
        exact .inr ⟨p, read, bind_eq_error.mpr (.inl unmet)⟩
  · obtain ⟨unknown, lists, refuse⟩ := keys.exists_refuseUnknown path
    rw [ofContent_of_unknown path names, refuse]
    constructor
    · intro same
      cases same
      exact .unknown names lists
    · intro refused
      cases refused with
      | unknown _ also => rw [keys.listsUnknown_unique lists also]
      | unreadable others => exact absurd others names
      | unmet others => exact absurd others names

end Stages

/-! ### The order of the keys -/

section Order

variable {others : List (Value × Value)} (reordered : others.Perm entries)
include reordered

lemma IsReadable.perm (f : Field) : IsReadable others f ↔ IsReadable entries f := by
  simp only [IsReadable, reordered.mem_iff]

lemma IsUnreadable.perm (f : Field) (cause : Refusal) :
    IsUnreadable others f cause ↔ IsUnreadable entries f cause := by
  simp only [IsUnreadable, reordered.mem_iff]

lemma Describes.perm {p : Configuration} (describes : Describes entries p) :
    Describes others p where
  absent f absent := describes.absent f fun v => by
    rw [← reordered.mem_iff]
    exact absent v
  read f v x member := describes.read f v x (reordered.mem_iff.mp member)
  kept f v member := describes.kept f v (reordered.mem_iff.mp member)

lemma ListsUnknown.perm {unknown : List Value} (lists : ListsUnknown entries unknown) :
    ListsUnknown others unknown where
  mem_iff k := by simpa only [reordered.mem_iff] using lists.mem_iff k
  increasing := lists.increasing

lemma IsAccepted.perm {p : Configuration} (accepted : IsAccepted entries p) :
    IsAccepted others p where
  names := (NamesFields.perm reordered).mpr accepted.names
  readable f real := (IsReadable.perm reordered f).mpr (accepted.readable f real)
  describes := accepted.describes.perm reordered
  meets := accepted.meets

lemma IsRefused.perm {path : String} {cause : Refusal} (refused : IsRefused path entries cause) :
    IsRefused path others cause := by
  cases refused with
  | unknown names lists =>
    exact .unknown (mt (NamesFields.perm reordered).mp names) (lists.perm reordered)
  | unreadable names first =>
    refine .unreadable ((NamesFields.perm reordered).mpr names) ?_
    simpa only [FailsFirst, IsReadable.perm reordered, IsUnreadable.perm reordered] using first
  | unmet names readable describes first =>
    refine .unmet ((NamesFields.perm reordered).mpr names) (fun f real => ?_)
      (describes.perm reordered) first
    exact (IsReadable.perm reordered f).mpr (readable f real)

/-- What comes of a mapping does not depend on the order of its entries. -/
lemma ofContent_perm (keys : TextKeys entries) (path : String) :
    ofContent path (.mapping others) = ofContent path (.mapping entries) := by
  cases result : ofContent path (.mapping entries) with
  | ok p =>
    refine (ofContent_eq_ok_iff (keys.perm reordered) path p).mpr ?_
    exact ((ofContent_eq_ok_iff keys path p).mp result).perm reordered
  | error cause =>
    refine (ofContent_eq_error_iff (keys.perm reordered) path cause).mpr ?_
    exact ((ofContent_eq_error_iff keys path cause).mp result).perm reordered

end Order

/-! ### Loading -/

/-- A mapping with a number that is none in a field with a requirement is refused. -/
lemma exists_refusal_of_isNaN (keys : TextKeys entries) (path : String) {p : Configuration}
    (describes : Describes entries p) {c : Check} (member : c ∈ checks) {x : Float}
    (value : p.get c.field = .float x) (undefined : x.isNaN = true) :
    ∃ cause, ofContent path (.mapping entries) = .error cause := by
  cases result : ofContent path (.mapping entries) with
  | ok q =>
    have accepted := (ofContent_eq_ok_iff keys path q).mp result
    obtain rfl : p = q := describes.unique accepted.readable accepted.describes
    have met := accepted.meets c member
    rw [value, run_of_isNaN undefined] at met
    cases met
  | error cause => exact ⟨cause, rfl⟩

/-- A mapping all keys of which are texts is accepted exactly if they are names of fields, its
values for real numbers can be read, and the configuration that it describes meets all requirements,
which is then what comes of it. Else the first of these stages that fails is reported. In particular
a field with a requirement cannot be a number that is none. What comes of the mapping does not
depend on the order of its entries, and it is what is loaded from a document for it. -/
theorem ofContent_mapping (keys : TextKeys entries) (path : String) :
    (∀ p, ofContent path (.mapping entries) = .ok p ↔ IsAccepted entries p)
      ∧ (∀ cause, ofContent path (.mapping entries) = .error cause
          ↔ IsRefused path entries cause)
      ∧ (∀ p, Describes entries p → ∀ c ∈ checks, ∀ x, p.get c.field = .float x →
          x.isNaN = true → c.run (p.get c.field) = .error (.violated c)
            ∧ ∃ cause, ofContent path (.mapping entries) = .error cause)
      ∧ (∀ others : List (Value × Value), others.Perm entries →
          ofContent path (.mapping others) = ofContent path (.mapping entries))
      ∧ ∀ text, Document.content text = .ok (.mapping entries) →
          load path (some text) = ofContent path (.mapping entries) := by
  refine ⟨ofContent_eq_ok_iff keys path, ofContent_eq_error_iff keys path, ?_, ?_, ?_⟩
  · intro p describes c member x value undefined
    refine ⟨?_, exists_refusal_of_isNaN keys path describes member value undefined⟩
    rw [value, run_of_isNaN undefined]
  · exact fun others perm => ofContent_perm perm keys path
  · intro text content
    rw [load, content]
    rfl

/-- A mapping with a truth value for a real number, which counts as one, and no value where there
need not be one. -/
theorem ofContent_mapping_truthValue :
    ∃ p : Configuration,
      ofContent "solver" (.mapping [(.text "nu", .bool true), (.text "tol_step", .null)]) = .ok p
        ∧ p.get .threshold = .float 1 ∧ p.get .stepTolerance = .null
        ∧ p.get .newtonSteps = .int 100 := by
  set entries : List (Value × Value) := [(.text "nu", .bool true), (.text "tol_step", .null)]
  have keys : TextKeys entries := ⟨by simp [entries, Value.isText_text], by decide⟩
  have names : NamesFields entries := by
    simpa [NamesFields, entries] using ⟨⟨.threshold, rfl⟩, .stepTolerance, rfl⟩
  have readable : ∀ f ∈ Field.reals, IsReadable entries f := by
    rintro f - v member some_value
    rcases List.mem_pair.mp member with first | second
    · obtain ⟨-, rfl⟩ := Prod.mk.inj first
      exact ⟨1, rfl⟩
    · exact absurd (Prod.mk.inj second).2 some_value
  have describes := describes_described keys names
  have meets : ∀ c ∈ checks, c.run ((described entries).get c.field) = .ok () :=
    List.forall_iff_forall_mem.mp
      ⟨rfl, rfl, rfl, rfl, rfl, rfl, rfl, rfl, rfl, rfl, rfl, rfl, rfl⟩
  obtain ⟨accepts, -⟩ := ofContent_mapping keys "solver"
  have given : (.text "nu", .bool true) ∈ entries := List.mem_cons_self
  have none : (.text "tol_step", .null) ∈ entries := List.mem_cons_of_mem _ List.mem_cons_self
  refine ⟨_, (accepts _).mpr ⟨names, readable, describes, meets⟩, ?_, ?_, ?_⟩
  · exact describes.read .threshold (.bool true) 1 given (by decide) rfl
  · exact describes.kept .stepTolerance .null none (.inr rfl)
  · exact describes.absent .newtonSteps (by simp [entries, Field.name])

end Configuration

end NewtonKrylov
